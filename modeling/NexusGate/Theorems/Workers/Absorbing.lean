import NexusGate.Theorems.Workers.Lifecycle

/-! # Terminal job states

`execute` never looks at the status it loads, so a message that is delivered again after its job ended
starts the job over. A terminal record is final in the runs where that does not happen (`Calm`): no
delivery starts on a terminal record, and none is under way when another one stores it. -/

namespace NexusGate.Workers
open Async Async.System Redis Rag

/-- After the record `job` was stored, `w` has the same outcome, counted and pushed at most once. -/
structure Absorbed {service : IngestionJobService} (w : Pool service) (t j : String) (job : IngestJob) : Prop where
  record : ∀ job', w.state.record? t j = some job' →
    job'.status = job.status ∧ job'.docId = job.docId ∧ job'.error = job.error
  pushed : w.trace.countP (pushesJob t j) ≤ if job.status = .failed then 1 else 0
  failed : w.trace.countP (countsJob t j "failed") ≤ if job.status = .failed then 1 else 0
  done : w.trace.countP (countsJob t j "done") ≤ if job.status = .done then 1 else 0

/-- In every run whose steps meet `P`, a job that was enqueued and whose record is terminal stays as it is. -/
def Absorbing (service : IngestionJobService) (P : Pool service → (system service).Act → Prop) : Prop :=
  ∀ w w' : Pool service, World.Reaches P (emptyPool service) w → World.Reaches P w w' →
    ∀ t j p, (t, j, p) ∈ w.state.messages → ∀ job, w.state.record? t j = some job → job.status.terminal = true →
      Absorbed w' t j job

/-- No delivery starts while the job's record is terminal, and no other delivery of the job is under way
    when one stores a terminal record. -/
def Calm {service : IngestionJobService} (w : Pool service) : (system service).Act → Prop
  | .start _ (.execute t j _) => ∀ job, w.state.record? t j = some job → job.status.terminal = false
  | .op i _ => ∀ c e k job, w.threads i = some ⟨c, .op e k⟩ → Op.saves e = some job → job.status.terminal = true →
      ∀ i' th, i' ≠ i → w.threads i' = some th → ∀ p, th.call ≠ .execute job.tenantId job.jobId p
  | _ => True

/-! ### Every calm step keeps the invariant -/

section Steps
variable {service : IngestionJobService} {F : Ended} {s s' : State} {tr : List (system service).Event} {Γ : Board}
  {i : Nat} {c : Call} {g g' : Phase} {ch : Choice}

theorem Inv.job_of_running (h : Inv F s tr Γ) {t j p : String} (hi : Γ i = some (.execute t j p, g)) :
    isUuidHex j = true ∧ j ∈ s.drawn :=
  h.ids.sent t j p (h.ids.running i t j p g hi)

/-- A live delivery works on an open job. -/
theorem JobOk.of_live {t j p : String} (h : JobOk F s tr Γ t j) (hi : Γ i = some (.execute t j p, .live)) :
    F t j = none ∧ OpenJob s tr Γ t j := by
  rcases h with h | ⟨job, -, h⟩
  · exact h
  · rcases h.phases i p _ hi with hg | ⟨hg, -⟩ | ⟨_, _, hg⟩ <;> cases hg

/-- A quiet operation after which the call goes on as before, or leaves. -/
theorem Inv.quiet (h : Inv F s tr Γ) (hi : Γ i = some (c, g)) {e : Op} {r : Except Exn e.Reply} (he : e.Quiet)
    (hex : exec e ch s = some (r, s')) (hsilent : ∀ t j, Silent t j (.did i c e r : (system service).Event))
    (hg : g' = g ∨ g' = .leaving) : Inv F s' (.did i c e r :: tr) (Function.update Γ i (some (c, g'))) := by
  obtain ⟨hrest, hl⟩ := exec_quiet he hex
  refine ⟨h.ids.keep hrest (fun t j hj => Or.inl (hl t j hj)) ?_, fun t j hj => (h.jobs t j hj).keep (hsilent t j)
    (hl t j hj) hrest.now.ge (fun m hm => hrest.messages ▸ hm) ?_⟩
  · rintro c' g'' heq
    cases heq
    refine ⟨fun t j p hc => h.ids.running i t j p g (hc ▸ hi), fun j hj => ?_, fun j hj => ?_⟩
    · rcases hg with rfl | rfl
      · exact ⟨_, hi, hj⟩
      · cases hj
    · rcases hg with rfl | rfl
      · exact hj ▸ hi
      · cases hj
  · intro i' p g'' hi'
    by_cases hii : i' = i
    · subst hii
      rw [Function.update_self] at hi'
      cases hi'
      rcases hg with rfl | rfl
      · exact Or.inl hi
      · exact Or.inr rfl
    · rw [Function.update_of_ne hii] at hi'
      exact Or.inl hi'

theorem silent_of_plain {e : Op} {r : Except Exn e.Reply} (he : e.Plain) (t j : String) :
    Silent t j (.did i c e r : (system service).Event) where
  pushed := by simp [pushesJob, he.pushes]
  failed := by
    cases c
    · rfl
    · exact Bool.and_eq_false_imp.mpr fun _ => he.failed
  done := by
    cases c
    · rfl
    · exact Bool.and_eq_false_imp.mpr fun _ => he.done

/-- The board after a step of call `i`, at the other calls. -/
theorem board_of_ne {x : Option (Call × Phase)} {i' : Nat} {y : Call × Phase} (hii : i' ≠ i)
    (h : Function.update Γ i x i' = some y) : Γ i' = some y := by
  rwa [Function.update_of_ne hii] at h

/-- A delivery loads the record. -/
theorem Inv.load (h : Inv F s tr Γ) {t j p : String} (hi : Γ i = some (.execute t j p, .waiting))
    {r : Except Exn (Op.Reply (.redis (.get (jobKey t j))))}
    (hex : exec (.redis (.get (jobKey t j))) ch s = some (r, s')) :
    ∃ g', (deliveryMonitor service t j).next .waiting (.redis (.get (jobKey t j))) r g' ∧
      Inv F s' (.did i (.execute t j p) (.redis (.get (jobKey t j))) r :: tr)
        (Function.update Γ i (some (.execute t j p, g'))) := by
  have hquiet : (Op.redis (.get (jobKey t j))).Plain := ⟨fun _ _ _ => by simp [Cmd.writes], rfl, rfl, rfl⟩
  cases hr : Op.loaded _ r with
  | none =>
    refine ⟨.leaving, ?_, h.quiet hi hquiet.quiet hex (silent_of_plain hquiet) (Or.inr rfl)⟩
    simp only [deliveryMonitor]
    rw [hr]
    trivial
  | some job =>
    obtain ⟨x, hx, hv⟩ := exec_get hex hr
    have hopen : F t j = none ∧ OpenJob s tr Γ t j := by
      rcases h.jobs t j (h.job_of_running hi).1 with ho | ⟨job₀, -, hc⟩
      · exact ho
      · rcases hc.phases i p _ hi with hg | ⟨-, hgone⟩ | ⟨_, _, hg⟩
        · cases hg
        · rw [hgone] at hx
          cases hx
        · cases hg
    obtain ⟨hF, hopen⟩ := hopen
    obtain ⟨job', hv', ht, hj, -⟩ := hopen.record x (lookup_of_live? hx)
    rw [hv] at hv'
    cases hv'
    obtain ⟨hrest, hl⟩ := exec_quiet hquiet.quiet hex
    refine ⟨.live, ?_, h.ids.keep hrest (fun t j hj => Or.inl (hl t j hj)) ?_, fun t' j' hj' => ?_⟩
    · simp only [deliveryMonitor]
      rw [hr]
      exact ⟨ht, hj, trivial⟩
    · rintro c' g'' heq
      cases heq
      exact ⟨fun t' j' p' hc => h.ids.running i t' j' p' _ (hc ▸ hi), fun _ hj => (by cases hj), fun _ hj => (by cases hj)⟩
    · by_cases hsame : (t', j') = (t, j)
      · cases hsame
        refine Or.inl ⟨hF, (hopen.keep (hl t j hj') fun i' p' f c q hi' => ?_).log (silent_of_plain hquiet t j)⟩
        by_cases hii : i' = i
        · subst hii
          rw [Function.update_self] at hi'
          cases hi'
        · exact board_of_ne hii hi'
      · refine (h.jobs t' j' hj').keep (silent_of_plain hquiet t' j') (hl t' j' hj') hrest.now.ge
          (fun m hm => hrest.messages ▸ hm) fun i' p' g'' hi' => Or.inl ?_
        by_cases hii : i' = i
        · subst hii
          rw [Function.update_self] at hi'
          cases hi'
          exact absurd rfl hsame
        · exact board_of_ne hii hi'

/-- A delivery saves the record. -/
theorem Inv.save (h : Inv F s tr Γ) {t j p : String} (hi : Γ i = some (.execute t j p, .live)) {job : IngestJob}
    {n : Int} (ht : job.tenantId = t) (hj : job.jobId = j)
    {r : Except Exn (Op.Reply (.multi (service.jobs.saveCmds job n)))}
    (hex : exec (.multi (service.jobs.saveCmds job n)) ch s = some (r, s'))
    (alone : job.status.terminal = true → ∀ i' p' g'', i' ≠ i → Γ i' ≠ some (.execute t j p', g'')) :
    Inv F s' (.did i (.execute t j p) (.multi (service.jobs.saveCmds job n)) r :: tr)
      (Function.update Γ i (some (.execute t j p, if succeeded r then Phase.afterSave job else .leaving))) := by
  subst ht hj
  obtain ⟨hu, hd⟩ := h.job_of_running hi
  obtain ⟨hrest, hother, hrec⟩ := exec_save hu hex
  have hsent := h.ids.running i _ _ p _ hi
  have hm : ∀ m ∈ s.messages, m ∈ s'.messages := fun m hm => hrest.messages ▸ hm
  obtain ⟨hF, hopen⟩ := (h.jobs _ _ hu).of_live hi
  have hsilent : ∀ t j, Silent t j
      (.did i (.execute job.tenantId job.jobId p) (.multi (service.jobs.saveCmds job n)) r :
        (system service).Event) := fun t j =>
    ⟨by simp [pushesJob, Op.pushes, JobStore.saveCmds], by simp [countsJob, Op.counts], by simp [countsJob, Op.counts]⟩
  refine ⟨h.ids.keep hrest (fun t j hj => ?_) ?_, fun t j hj => ?_⟩
  · by_cases hsame : (t, j) = (job.tenantId, job.jobId)
    · cases hsame
      refine Or.inr ⟨hd, fun i' c hi' => ?_⟩
      by_cases hii : i' = i
      · subst hii
        rw [Function.update_self] at hi'
        simp only [Phase.afterSave, Option.some.injEq, Prod.mk.injEq] at hi'
        have := hi'.2
        split at this
        · split at this <;> cases this
        · cases this
      · exact (h.ids.holder i' c _ (board_of_ne hii hi')).2 _ p hsent
    · exact Or.inl (hother t j hj hsame)
  · rintro c' g'' heq
    cases heq
    refine ⟨fun t' j' p' hc => h.ids.running i t' j' p' _ (hc ▸ hi), fun j' ho => ?_, fun j' ho => ?_⟩
    · simp only [Phase.afterSave] at ho
      split at ho
      · split at ho <;> cases ho
      · cases ho
    · simp only [Phase.afterSave] at ho
      split at ho
      · split at ho <;> cases ho
      · cases ho
  · by_cases hsame : (t, j) = (job.tenantId, job.jobId)
    · cases hsame
      rcases hrec with ⟨hsame, hfail⟩ | ⟨x, hx, hv⟩
      · -- The save failed and left the record: the delivery gives up, the job is still open.
        refine Or.inl ⟨hF, (hopen.keep hsame fun i' p' f c q hi' => ?_).log (hsilent _ _)⟩
        by_cases hii : i' = i
        · subst hii
          rw [Function.update_self, hfail] at hi'
          cases hi'
        · exact board_of_ne hii hi'
      · have hrecord : ∀ P : IngestJob → Prop, P job →
            Holds (s'.store.lookup (jobKey job.tenantId job.jobId)) job.tenantId job.jobId P := fun P hP y hy => by
          rw [hx] at hy
          cases hy
          exact ⟨job, hv, rfl, rfl, hP⟩
        cases hterm : job.status.terminal with
        | false =>
          refine Or.inl ⟨hF, OpenJob.log ⟨hrecord _ hterm, hopen.pushed, hopen.failed, hopen.done,
            fun i' p' f c q hi' => ?_⟩ (hsilent _ _)⟩
          by_cases hii : i' = i
          · subst hii
            rw [Function.update_self] at hi'
            simp only [Phase.afterSave, hterm, Bool.false_eq_true, ↓reduceIte, Option.some.injEq, Prod.mk.injEq] at hi'
            have := hi'.2
            split at this <;> cases this
          · exact hopen.phases i' p' f c q (board_of_ne hii hi')
        | true =>
          -- The save ended the job. No other delivery is under way, so this one alone closes it.
          have honly : ∀ i' p' g'', Function.update Γ i (some (Call.execute job.tenantId job.jobId p,
              if succeeded r then Phase.afterSave job else .leaving)) i' =
              some (.execute job.tenantId job.jobId p', g'') →
              i' = i ∧ (g'' = .leaving ∨ g'' = .closing (job.status == .failed) false false) := fun i' p' g'' hi' => by
            by_cases hii : i' = i
            · subst hii
              rw [Function.update_self] at hi'
              simp only [Phase.afterSave, hterm, ↓reduceIte, Option.some.injEq, Prod.mk.injEq] at hi'
              refine ⟨rfl, ?_⟩
              rw [← hi'.2]
              split
              · exact Or.inr rfl
              · exact Or.inl rfl
            · exact absurd (board_of_ne hii hi') (alone hterm i' p' g'' hii)
          refine Or.inr ⟨job, fun job₀ heq => (by rw [hF] at heq; cases heq), ClosedJob.log ?_ (hsilent _ _)⟩
          constructor
          · exact hterm
          · exact ⟨p, hm _ hsent⟩
          · exact hrecord _ ⟨rfl, rfl, rfl⟩
          · intro i' p' g'' hi'
            rcases (honly i' p' g'' hi').2 with hg | hg
            · exact Or.inl hg
            · exact Or.inr (Or.inr ⟨_, _, hg⟩)
          · intro i₁ i₂ p₁ p₂ f c q f' c' q' h₁ h₂
            exact (honly _ _ _ h₁).1.trans (honly _ _ _ h₂).1.symm
          · exact fun _ _ _ _ _ => hopen.pushed
          · exact fun _ _ _ _ _ => ⟨hopen.failed, hopen.done⟩
          · exact hopen.pushed.le.trans (Nat.zero_le _)
          · exact hopen.failed.le.trans (Nat.zero_le _)
          · exact hopen.done.le.trans (Nat.zero_le _)
    · refine (h.jobs t j hj).keep (hsilent t j) (hother t j hj hsame) hrest.now.ge hm fun i' p' g'' hi' => Or.inl ?_
      by_cases hii : i' = i
      · subst hii
        rw [Function.update_self] at hi'
        cases hi'
        exact absurd rfl hsame
      · exact board_of_ne hii hi'

/-- A closing delivery counts or pushes what it stored. -/
theorem Inv.close (h : Inv F s tr Γ) {t j p : String} {failed counted pushed : Bool}
    (hi : Γ i = some (.execute t j p, .closing failed counted pushed)) {e : Op} {r : Except Exn e.Reply}
    (hmay : (deliveryMonitor service t j).may (.closing failed counted pushed) e)
    (hex : exec e ch s = some (r, s')) :
    Inv F s' (.did i (.execute t j p) e r :: tr) (Function.update Γ i (some (.execute t j p,
      .closing failed (counted || e.counts "done" || e.counts "failed") (pushed || e.pushes.isSome)))) := by
  obtain ⟨hquiet, -, hpush, hdone, hfail⟩ := hmay
  obtain ⟨hrest, hl⟩ := exec_quiet hquiet hex
  obtain ⟨hu, -⟩ := h.job_of_running hi
  have hm : ∀ m ∈ s.messages, m ∈ s'.messages := fun m hm => hrest.messages ▸ hm
  refine ⟨h.ids.keep hrest (fun t j hj => Or.inl (hl t j hj)) ?_, fun t' j' hj' => ?_⟩
  · rintro c' g'' heq
    cases heq
    exact ⟨fun t' j' p' hc => h.ids.running i t' j' p' _ (hc ▸ hi), fun _ ho => (by cases ho), fun _ ho => (by cases ho)⟩
  · by_cases hsame : (t', j') = (t, j)
    · cases hsame
      rcases h.jobs t j hu with ⟨-, ho⟩ | ⟨job, hF, hc⟩
      · exact absurd hi (ho.phases i p _ _ _)
      · have hfailed : failed = (job.status == .failed) := by
          rcases hc.phases i p _ hi with hg | ⟨hg, -⟩ | ⟨_, _, hg⟩ <;> cases hg
          rfl
        have hst : job.status = .failed ∨ job.status = .done := by
          have := hc.terminal
          cases hs : job.status <;> simp [hs, JobStatus.terminal] at this ⊢
        have hbit : (job.status == .failed) = true ↔ job.status = .failed := beq_iff_eq
        have only : ∀ i' p' g'', Function.update Γ i (some (Call.execute t j p, Phase.closing failed
            (counted || e.counts "done" || e.counts "failed") (pushed || e.pushes.isSome))) i' =
            some (.execute t j p', g'') → (∃ f c q, g'' = .closing f c q) → i' = i ∧ g'' = Phase.closing failed
              (counted || e.counts "done" || e.counts "failed") (pushed || e.pushes.isSome) := by
          rintro i' p' g'' hi' ⟨f, c, q, rfl⟩
          by_cases hii : i' = i
          · subst hii
            rw [Function.update_self] at hi'
            cases hi'
            exact ⟨rfl, rfl⟩
          · exact absurd (hc.one i' i p' p f c q _ _ _ (board_of_ne hii hi') hi) hii
        have hpushed : ∀ job', e.pushes = some job' → pushesJob t j (.did i (.execute t j p) e r :
            (system service).Event) = true := fun job' he => by
          obtain ⟨-, -, ht, hj⟩ := hpush job' he
          simp [pushesJob, he, ht, hj]
        have hcounts : ∀ o, countsJob t j o (.did i (.execute t j p) e r : (system service).Event) = e.counts o :=
          fun o => by simp [countsJob]
        have hnone : e.pushes = none → pushesJob t j (.did i (.execute t j p) e r :
            (system service).Event) = false := fun he => by simp [pushesJob, he]
        refine Or.inr ⟨job, hF, ?_⟩
        constructor
        · exact hc.terminal
        · exact hc.sent.imp fun p hp => hm _ hp
        · exact hc.record.congr (hl t j hj')
        · intro i' p' g'' hi'
          by_cases hii : i' = i
          · subst hii
            rw [Function.update_self] at hi'
            cases hi'
            exact Or.inr (Or.inr ⟨_, _, by rw [hfailed]⟩)
          · rcases hc.phases i' p' g'' (board_of_ne hii hi') with hg | ⟨hg, hgone⟩ | hg
            · exact Or.inl hg
            · exact Or.inr (Or.inl ⟨hg, by rw [hrest.now, live?_congr (hl t j hj')]; exact hgone⟩)
            · exact Or.inr (Or.inr hg)
        · intro i₁ i₂ p₁ p₂ f c q f' c' q' h₁ h₂
          exact (only _ _ _ h₁ ⟨_, _, _, rfl⟩).1.trans (only _ _ _ h₂ ⟨_, _, _, rfl⟩).1.symm
        · intro i' p' f c hi'
          obtain ⟨-, hg⟩ := only _ _ _ hi' ⟨_, _, _, rfl⟩
          have hq : (pushed || e.pushes.isSome) = false := (Phase.closing.inj hg).2.2.symm
          rw [Bool.or_eq_false_iff, Option.isSome_eq_false_iff, Option.isNone_iff_eq_none] at hq
          rw [countP_silent (hnone hq.2)]
          exact hc.unpushed i p failed counted (hq.1 ▸ hi)
        · intro i' p' f q hi'
          obtain ⟨-, hg⟩ := only _ _ _ hi' ⟨_, _, _, rfl⟩
          have hq : (counted || e.counts "done" || e.counts "failed") = false := (Phase.closing.inj hg).2.1.symm
          rw [Bool.or_eq_false_iff, Bool.or_eq_false_iff] at hq
          rw [countP_silent ((hcounts _).trans hq.2), countP_silent ((hcounts _).trans hq.1.2)]
          exact hc.uncounted i p failed pushed (hq.1.1 ▸ hi)
        · cases he : e.pushes with
          | none => exact (countP_silent (hnone he)).le.trans hc.pushed
          | some job' =>
            obtain ⟨hf, hq, -⟩ := hpush job' he
            rw [List.countP_cons_of_pos (hpushed job' he), hc.unpushed i p failed counted (hq ▸ hi),
              if_pos (hbit.mp (hfailed ▸ hf))]
        · cases he : e.counts "failed" with
          | false => exact (countP_silent ((hcounts _).trans he)).le.trans hc.failed
          | true =>
            obtain ⟨hf, hq⟩ := hfail he
            rw [List.countP_cons_of_pos ((hcounts _).trans he), (hc.uncounted i p failed pushed (hq ▸ hi)).1,
              if_pos (hbit.mp (hfailed ▸ hf))]
        · cases he : e.counts "done" with
          | false => exact (countP_silent ((hcounts _).trans he)).le.trans hc.done
          | true =>
            obtain ⟨hf, hq⟩ := hdone he
            have : job.status = .done := hst.resolve_left fun hs => by
              rw [hfailed, hbit.mpr hs] at hf
              cases hf
            rw [List.countP_cons_of_pos ((hcounts _).trans he), (hc.uncounted i p failed pushed (hq ▸ hi)).2,
              if_pos this]
    · have hsilent : Silent t' j' (.did i (.execute t j p) e r : (system service).Event) := by
        have hne : ¬(t = t' ∧ j = j') := fun h => hsame (by rw [h.1, h.2])
        refine ⟨?_, ?_, ?_⟩
        · cases he : e.pushes with
          | none => simp [pushesJob, he]
          | some job' =>
            obtain ⟨-, -, ht, hj⟩ := hpush job' he
            simpa [pushesJob, he, ht, hj] using fun h₁ h₂ => hne ⟨h₁, h₂⟩
        · simpa [countsJob] using fun h₁ h₂ => absurd ⟨h₁, h₂⟩ hne
        · simpa [countsJob] using fun h₁ h₂ => absurd ⟨h₁, h₂⟩ hne
      refine (h.jobs t' j' hj').keep hsilent (hl t' j' hj') hrest.now.ge hm fun i' p' g'' hi' => Or.inl ?_
      by_cases hii : i' = i
      · subst hii
        rw [Function.update_self] at hi'
        cases hi'
        exact absurd rfl hsame
      · exact board_of_ne hii hi'

/-- An upload saves the record of the id it drew. -/
theorem Inv.saveNew (h : Inv F s tr Γ) {t q : String} {u : DocumentUpload} {req : Option String}
    (hi : Γ i = some (.submit t u req, .holds q)) {job : IngestJob} {n : Int} (hj : job.jobId = q)
    (hterm : job.status.terminal = false) {r : Except Exn (Op.Reply (.multi (service.jobs.saveCmds job n)))}
    (hex : exec (.multi (service.jobs.saveCmds job n)) ch s = some (r, s')) :
    Inv F s' (.did i (.submit t u req) (.multi (service.jobs.saveCmds job n)) r :: tr)
      (Function.update Γ i (some (.submit t u req, if succeeded r then .saved q else .leaving))) := by
  subst hj
  obtain ⟨hu, hd⟩ := h.ids.owner i _ _ _ hi rfl
  obtain ⟨hnorec, hnomsg⟩ := h.ids.holder i _ _ hi
  obtain ⟨hrest, hother, hrec⟩ := exec_save hu hex
  have hm : ∀ m ∈ s.messages, m ∈ s'.messages := fun m hm => hrest.messages ▸ hm
  have hsilent : ∀ t' j', Silent t' j' (.did i (.submit t u req) (.multi (service.jobs.saveCmds job n)) r :
      (system service).Event) := fun t' j' =>
    ⟨by simp [pushesJob, Op.pushes, JobStore.saveCmds], by simp [countsJob], by simp [countsJob]⟩
  have hphase : ∀ i' t' j' p g'', Function.update Γ i (some (Call.submit t u req,
      if succeeded r then Phase.saved job.jobId else .leaving)) i' = some (.execute t' j' p, g'') →
      Γ i' = some (.execute t' j' p, g'') := fun i' t' j' p g'' hi' => by
    by_cases hii : i' = i
    · subst hii
      rw [Function.update_self] at hi'
      cases hi'
    · exact board_of_ne hii hi'
  refine ⟨h.ids.keep hrest (fun t' j' hj' => ?_) ?_, fun t' j' hj' => ?_⟩
  · by_cases hsame : j' = job.jobId
    · subst hsame
      refine Or.inr ⟨hd, fun i' c hi' => ?_⟩
      by_cases hii : i' = i
      · subst hii
        rw [Function.update_self] at hi'
        simp only [Option.some.injEq, Prod.mk.injEq] at hi'
        have := hi'.2
        split at this <;> cases this
      · exact hii (h.ids.single i' i _ _ _ _ _ (board_of_ne hii hi') hi rfl rfl)
    · exact Or.inl (hother t' j' hj' fun heq => hsame (congrArg Prod.snd heq))
  · rintro c' g'' heq
    cases heq
    refine ⟨fun _ _ _ hc => (by cases hc), fun j' ho => ⟨_, hi, ?_⟩, fun j' ho => ?_⟩
    · split at ho
      · exact ho
      · cases ho
    · split at ho <;> cases ho
  · by_cases hsame : (t', j') = (job.tenantId, job.jobId)
    · cases hsame
      rcases h.jobs _ _ hu with ⟨hF, ho⟩ | ⟨_, -, hc⟩
      · refine Or.inl ⟨hF, OpenJob.log ⟨?_, ho.pushed, ho.failed, ho.done, fun i' p f c q hi' =>
          ho.phases i' p f c q (hphase _ _ _ _ _ hi')⟩ (hsilent _ _)⟩
        rcases hrec with ⟨hsame, -⟩ | ⟨x, hx, hv⟩
        · exact ho.record.congr hsame
        · intro y hy
          rw [hx] at hy
          cases hy
          exact ⟨job, hv, rfl, rfl, hterm⟩
      · obtain ⟨p, hp⟩ := hc.sent
        exact absurd hp (hnomsg _ p)
    · exact (h.jobs t' j' hj').keep (hsilent t' j') (hother t' j' hj' hsame) hrest.now.ge hm
        fun i' p g'' hi' => Or.inl (hphase _ _ _ _ _ hi')

/-- An upload draws an id. -/
theorem Inv.draw (h : Inv F s tr Γ) {t : String} {u : DocumentUpload} {req : Option String}
    (hi : Γ i = some (.submit t u req, g)) {id : String} (hid : isUuidHex id = true) (hfresh : id ∉ s.drawn)
    {r : Except Exn (Op.Reply .uuid)} (hg : g' = .drawing ∨ g' = .holds id) :
    Inv F { s with drawn := id :: s.drawn } (.did i (.submit t u req) .uuid r :: tr)
      (Function.update Γ i (some (.submit t u req, g'))) := by
  have owned : ∀ i' c g'' j, Function.update Γ i (some (Call.submit t u req, g')) i' = some (c, g'') →
      g''.owns = some j → i' = i ∧ j = id ∨ i' ≠ i ∧ Γ i' = some (c, g'') := fun i' c g'' j hi' ho => by
    by_cases hii : i' = i
    · subst hii
      rw [Function.update_self] at hi'
      cases hi'
      rcases hg with rfl | rfl <;> cases ho
      exact Or.inl ⟨rfl, rfl⟩
    · exact Or.inr ⟨hii, board_of_ne hii hi'⟩
  have hphase : ∀ i' t' j' p g'', Function.update Γ i (some (Call.submit t u req, g')) i' =
      some (.execute t' j' p, g'') → Γ i' = some (.execute t' j' p, g'') := fun i' t' j' p g'' hi' => by
    by_cases hii : i' = i
    · subst hii
      rw [Function.update_self] at hi'
      cases hi'
    · exact board_of_ne hii hi'
  refine ⟨⟨fun t j p hm => ?_, fun i' t' j' p g'' hi' => h.ids.running i' t' j' p g'' (hphase _ _ _ _ _ hi'),
    fun t j hj hd => h.ids.unsaved t j hj fun hmem => hd (List.mem_cons_of_mem _ hmem), fun i' c j hi' => ?_,
    fun i' c g'' j hi' ho => ?_, fun i₁ i₂ c₁ c₂ g₁ g₂ j h₁ h₂ ho₁ ho₂ => ?_⟩, fun t' j' hj' => ?_⟩
  · exact ⟨(h.ids.sent t j p hm).1, List.mem_cons_of_mem _ (h.ids.sent t j p hm).2⟩
  · rcases owned i' c _ j hi' rfl with ⟨-, rfl⟩ | ⟨-, hold⟩
    · exact ⟨fun t => h.ids.unsaved t _ hid hfresh, fun t p hm => hfresh (h.ids.sent t _ p hm).2⟩
    · exact h.ids.holder i' c j hold
  · rcases owned i' c g'' j hi' ho with ⟨-, rfl⟩ | ⟨-, hold⟩
    · exact ⟨hid, List.mem_cons_self⟩
    · exact ⟨(h.ids.owner i' c g'' j hold ho).1, List.mem_cons_of_mem _ (h.ids.owner i' c g'' j hold ho).2⟩
  · rcases owned i₁ c₁ g₁ j h₁ ho₁ with ⟨rfl, hj⟩ | ⟨-, hold₁⟩ <;>
      rcases owned i₂ c₂ g₂ j h₂ ho₂ with ⟨rfl, hj'⟩ | ⟨-, hold₂⟩
    · rfl
    · exact absurd (hj ▸ (h.ids.owner i₂ c₂ g₂ j hold₂ ho₂).2) hfresh
    · exact absurd (hj' ▸ (h.ids.owner i₁ c₁ g₁ j hold₁ ho₁).2) hfresh
    · exact h.ids.single i₁ i₂ c₁ c₂ g₁ g₂ j hold₁ hold₂ ho₁ ho₂
  · exact (h.jobs t' j' hj').keep ⟨by simp [pushesJob, Op.pushes], by simp [countsJob], by simp [countsJob]⟩ rfl
      (Nat.le_refl _) (fun _ hm => hm) fun i' p g'' hi' => Or.inl (hphase _ _ _ _ _ hi')

/-- An upload enqueues the message of the job it saved. -/
theorem Inv.enqueue (h : Inv F s tr Γ) {t : String} {u : DocumentUpload} {req : Option String} {job : IngestJob}
    {p : String} (hi : Γ i = some (.submit t u req, .saved job.jobId)) {r : Except Exn (Op.Reply (.enqueue job p))}
    (hex : exec (.enqueue job p) ch s = some (r, s')) :
    Inv F s' (.did i (.submit t u req) (.enqueue job p) r :: tr)
      (Function.update Γ i (some (.submit t u req, .saved job.jobId))) := by
  have hΓ : Function.update Γ i (some (Call.submit t u req, Phase.saved job.jobId)) = Γ := by
    rw [← hi, Function.update_eq_self]
  have hsilent : ∀ t' j', Silent t' j' (.did i (.submit t u req) (.enqueue job p) r : (system service).Event) :=
    fun t' j' => ⟨by simp [pushesJob, Op.pushes], by simp [countsJob], by simp [countsJob]⟩
  rw [hΓ]
  rcases exec_enqueue hex with rfl | rfl
  · exact ⟨h.ids, fun t' j' hj' => (h.jobs t' j' hj').keep (hsilent t' j') rfl (Nat.le_refl _) (fun _ hm => hm)
      fun _ _ _ hi' => Or.inl hi'⟩
  · refine ⟨⟨fun t' j' p' hm => ?_, fun i' t' j' p' g'' hi' => List.mem_cons_of_mem _ (h.ids.running i' t' j' p' g'' hi'),
      h.ids.unsaved, fun i' c j hi' => ⟨(h.ids.holder i' c j hi').1, fun t' p' hm => ?_⟩, h.ids.owner, h.ids.single⟩,
      fun t' j' hj' => (h.jobs t' j' hj').keep (hsilent t' j') rfl (Nat.le_refl _)
        (fun _ hm => List.mem_cons_of_mem _ hm) fun _ _ _ hi' => Or.inl hi'⟩
    · rcases List.mem_cons.mp hm with heq | hm
      · cases heq
        exact h.ids.owner i _ _ _ hi rfl
      · exact h.ids.sent t' j' p' hm
    · rcases List.mem_cons.mp hm with heq | hm
      · cases heq
        have := h.ids.single i' i _ _ _ _ _ hi' hi rfl rfl
        subst this
        rw [hi] at hi'
        cases hi'
      · exact (h.ids.holder i' c j hi').2 t' p' hm

end Steps

section Run
variable {service : IngestionJobService} {F : Ended}

/-- A step of an upload. -/
theorem Inv.upload {s s' : State} {tr : List (system service).Event} {Γ : Board} {i : Nat} {g : Phase} {ch : Choice}
    (h : Inv F s tr Γ) {t : String} {u : DocumentUpload} {req : Option String} (hi : Γ i = some (.submit t u req, g))
    {e : Op} {r : Except Exn e.Reply} (hmay : (uploadMonitor service).may g e) (hex : exec e ch s = some (r, s')) :
    ∃ g', (uploadMonitor service).next g e r g' ∧
      Inv F s' (.did i (.submit t u req) e r :: tr) (Function.update Γ i (some (.submit t u req, g'))) := by
  cases g with
  | parking =>
    obtain rfl : e = .uuid := hmay
    obtain ⟨id, rfl, hid, hfresh, rfl⟩ := exec_uuid hex
    exact ⟨.drawing, fun _ => rfl, h.draw hi hid hfresh (Or.inl rfl)⟩
  | drawing =>
    rcases hmay with ⟨he, -⟩ | rfl
    · refine ⟨.drawing, ?_, h.quiet hi he.quiet hex (silent_of_plain he) (Or.inl rfl)⟩
      cases e with
      | uuid => exact he.quiet.elim
      | _ => rfl
    · obtain ⟨id, rfl, hid, hfresh, rfl⟩ := exec_uuid hex
      exact ⟨.holds id, rfl, h.draw hi hid hfresh (Or.inr rfl)⟩
  | holds q =>
    rcases hmay with ⟨he, hs⟩ | ⟨job, n, rfl, hj, hterm⟩
    · exact ⟨.holds q, by simp [uploadMonitor, hs], h.quiet hi he.quiet hex (silent_of_plain he) (Or.inl rfl)⟩
    · exact ⟨_, rfl, h.saveNew hi hj hterm hex⟩
  | saved q =>
    rcases hmay with ⟨he, -⟩ | ⟨job, p, rfl, rfl⟩
    · exact ⟨.saved q, rfl, h.quiet hi he.quiet hex (silent_of_plain he) (Or.inl rfl)⟩
    · exact ⟨_, rfl, h.enqueue hi hex⟩
  | _ => exact hmay.elim

/-- A step of a delivery. -/
theorem Inv.delivery {s s' : State} {tr : List (system service).Event} {Γ : Board} {i : Nat} {g : Phase} {ch : Choice}
    (h : Inv F s tr Γ) {t j p : String} (hi : Γ i = some (.execute t j p, g)) {e : Op} {r : Except Exn e.Reply}
    (hmay : (deliveryMonitor service t j).may g e) (hex : exec e ch s = some (r, s'))
    (alone : ∀ job, e.saves = some job → job.status.terminal = true →
      ∀ i' p' g'', i' ≠ i → Γ i' ≠ some (.execute job.tenantId job.jobId p', g'')) :
    ∃ g', (deliveryMonitor service t j).next g e r g' ∧
      Inv F s' (.did i (.execute t j p) e r :: tr) (Function.update Γ i (some (.execute t j p, g'))) := by
  cases g with
  | waiting =>
    obtain rfl : e = .redis (.get (jobKey t j)) := hmay
    exact h.load hi hex
  | live =>
    rcases hmay with ⟨he, hs⟩ | ⟨job, n, rfl, ht, hj⟩
    · exact ⟨.live, by simp [deliveryMonitor, hs], h.quiet hi he.quiet hex (silent_of_plain he) (Or.inl rfl)⟩
    · exact ⟨_, rfl, h.save hi ht hj hex fun hterm i' p' g'' hii => by
        subst ht hj
        exact alone job rfl hterm i' p' g'' hii⟩
  | closing failed counted pushed => exact ⟨_, rfl, h.close hi hmay hex⟩
  | _ => exact hmay.elim

theorem rules : Rules (watch service) Calm (@Inv service F) where
  start {w Γ i c} _ h hnone hadm hP := by
    have hx : ∀ c' g', some (c, (watch service).first c) = some (c', g') → g'.owns = none := by
      rintro c' g' heq
      cases heq
      cases c <;> rfl
    refine ⟨h.ids.keep ⟨rfl, rfl, rfl⟩ (fun _ _ _ => Or.inl rfl) fun c' g' heq => ⟨fun t j p hc => ?_,
      fun j ho => ?_, fun j ho => ?_⟩, fun t j hj => ?_⟩
    · cases heq
      subst hc
      exact of_decide_eq_true hadm
    · rw [hx c' g' heq] at ho
      cases ho
    · have := hx c' g' heq
      rw [ho] at this
      cases this
    · have hsilent : Silent t j (.start i c : (system service).Event) := ⟨rfl, rfl, rfl⟩
      have hwait : ∀ i' p g, Function.update Γ i (some (c, (watch service).first c)) i' =
          some (.execute t j p, g) → Γ i' = some (.execute t j p, g) ∨ c = .execute t j p ∧ g = .waiting :=
        fun i' p g hi' => by
          by_cases hii : i' = i
          · subst hii
            rw [Function.update_self] at hi'
            cases hi'
            exact Or.inr ⟨rfl, rfl⟩
          · exact Or.inl (board_of_ne hii hi')
      rcases h.jobs t j hj with ⟨hF, ho⟩ | ⟨job, hF, hc⟩
      · exact Or.inl ⟨hF, (ho.keep rfl fun i' p f c q hi' => (hwait _ _ _ hi').resolve_right (by simp)).log hsilent⟩
      · refine Or.inr ⟨job, hF, (hc.keep rfl (Nat.le_refl _) (fun _ hm => hm) fun i' p g hi' => ?_).log hsilent⟩
        rcases hwait i' p g hi' with hold | ⟨rfl, rfl⟩
        · exact Or.inl hold
        · -- The delivery starts, so the record is not there: a live one would be terminal.
          refine Or.inr (Or.inr ⟨rfl, ?_⟩)
          cases hx : live? w.state.now w.state.store (jobKey t j) with
          | none => rfl
          | some x =>
            obtain ⟨job', hv, -, -, hs, -⟩ := hc.record x (lookup_of_live? hx)
            have := hP job' (by simp [State.record?, value?, hx, hv])
            rw [hs, hc.terminal] at this
            cases this
  op {w Γ i ch c g e r s} hshows h hi hth hmay hex hP := by
    cases c with
    | submit t u req => exact h.upload hi hmay hex
    | execute t j p =>
      refine h.delivery hi hmay hex fun job hs hterm i' p' g' hii hi' => ?_
      obtain ⟨k, hk⟩ := hth
      obtain ⟨prog, hprog⟩ := hshows.thread hi'
      exact hP _ e k job hk hs hterm i' _ hii hprog p' rfl
  ended {s tr Γ i c g r} h hi _ := by
    refine ⟨h.ids.keep ⟨rfl, rfl, rfl⟩ (fun _ _ _ => Or.inl rfl) (fun _ _ heq => by cases heq), fun t j hj =>
      (h.jobs t j hj).keep ⟨rfl, rfl, rfl⟩ rfl (Nat.le_refl _) (fun _ hm => hm) fun i' p g hi' => Or.inl ?_⟩
    by_cases hii : i' = i
    · subst hii
      rw [Function.update_self] at hi'
      cases hi'
    · exact board_of_ne hii hi'
  kill {w Γ i c g} _ h hi _ _ := by
    refine ⟨h.ids.keep ⟨rfl, rfl, rfl⟩ (fun _ _ _ => Or.inl rfl) (fun _ _ heq => by cases heq), fun t j hj =>
      (h.jobs t j hj).keep ⟨rfl, rfl, rfl⟩ rfl (Nat.le_refl _) (fun _ hm => hm) fun i' p g hi' => Or.inl ?_⟩
    by_cases hii : i' = i
    · subst hii
      rw [Function.update_self] at hi'
      cases hi'
    · exact board_of_ne hii hi'
  env {w Γ b s} _ h hs _ := by
    obtain rfl := Option.some.inj hs
    refine ⟨⟨h.ids.sent, h.ids.running, h.ids.unsaved, h.ids.holder, h.ids.owner, h.ids.single⟩, fun t j hj => ?_⟩
    rcases h.jobs t j hj with ⟨hF, ho⟩ | ⟨job, hF, hc⟩
    · exact Or.inl ⟨hF, ho.keep rfl fun _ _ _ _ _ hi' => hi'⟩
    · exact Or.inr ⟨job, hF, hc.keep rfl (Nat.le_add_right _ _) (fun _ hm => hm) fun _ _ _ hi' => Or.inl hi'⟩

/-- Nothing has happened yet. -/
theorem Inv.empty : @Inv service (fun _ _ => none) {} [] fun _ => none where
  ids := {
    sent := fun _ _ _ h => nomatch h
    running := fun _ _ _ _ _ h => nomatch h
    unsaved := fun _ _ _ _ => rfl
    holder := fun _ _ _ h => nomatch h
    owner := fun _ _ _ _ h => nomatch h
    single := fun _ _ _ _ _ _ _ h => nomatch h }
  jobs _ _ _ := Or.inl ⟨rfl, {
    record := fun _ h => nomatch h
    pushed := rfl
    failed := rfl
    done := rfl
    phases := fun _ _ _ _ _ h => nomatch h }⟩

theorem shows_empty : (watch service).Shows (emptyPool service) fun _ => none := fun _ => rfl

theorem entry_of_record? {s : State} {t j : String} {job : IngestJob} (h : s.record? t j = some job) :
    ∃ x, live? s.now s.store (jobKey t j) = some x ∧ x.value = .str (.job job) := by
  unfold State.record? at h
  split at h
  · rename_i job' hv
    cases h
    exact Option.map_eq_some_iff.mp hv
  · cases h

/-- A terminal record means that its job is closed, as the record says. -/
theorem Inv.closed {s : State} {tr : List (system service).Event} {Γ : Board} {t j p : String} {job : IngestJob}
    (h : Inv F s tr Γ) (hm : (t, j, p) ∈ s.messages) (hr : s.record? t j = some job)
    (hterm : job.status.terminal = true) : ∃ job', ClosedJob s tr Γ t j job' ∧
      job.status = job'.status ∧ job.docId = job'.docId ∧ job.error = job'.error := by
  obtain ⟨x, hx, hv⟩ := entry_of_record? hr
  rcases h.jobs t j (h.ids.sent t j p hm).1 with ⟨-, ho⟩ | ⟨job', -, hc⟩
  · obtain ⟨job₁, hv₁, -, -, hopen⟩ := ho.record x (lookup_of_live? hx)
    rw [hv] at hv₁
    cases hv₁
    rw [hterm] at hopen
    cases hopen
  · obtain ⟨job₁, hv₁, -, -, hsame⟩ := hc.record x (lookup_of_live? hx)
    rw [hv] at hv₁
    cases hv₁
    exact ⟨job', hc, hsame⟩

/-- One job is known to have ended. -/
def endedAs (t j : String) (job : IngestJob) : Ended := fun t' j' => if (t', j') = (t, j) then some job else none

theorem endedAs_self {t j : String} {job : IngestJob} : endedAs t j job t j = some job := if_pos rfl

theorem endedAs_of_ne {t j t' j' : String} {job : IngestJob} (h : (t', j') ≠ (t, j)) :
    endedAs t j job t' j' = none := if_neg h

theorem Inv.knows {s : State} {tr : List (system service).Event} {Γ : Board} {t j : String} {job : IngestJob}
    (h : Inv (fun _ _ => none) s tr Γ) (hc : ClosedJob s tr Γ t j job) : Inv (endedAs t j job) s tr Γ := by
  refine ⟨h.ids, fun t' j' hj' => ?_⟩
  by_cases hsame : (t', j') = (t, j)
  · cases hsame
    exact Or.inr ⟨job, fun job₀ h₀ => Option.some.inj (h₀.symm.trans endedAs_self), hc⟩
  · rcases h.jobs t' j' hj' with ⟨-, ho⟩ | ⟨job', -, hc'⟩
    · exact Or.inl ⟨endedAs_of_ne hsame, ho⟩
    · refine Or.inr ⟨job', fun job₀ h₀ => ?_, hc'⟩
      rw [endedAs_of_ne hsame] at h₀
      cases h₀

/-- In the runs where no delivery of an ended job starts, and none is under way when another one ends the
    job, a terminal record is final. -/
theorem terminal_absorbing (service : IngestionJobService) : Absorbing service Calm := by
  intro w w' hw hw' t j p hm job hr hterm
  obtain ⟨Γ, hΓ, h⟩ := rules.reaches (watch_sound service) hw ⟨_, shows_empty, Inv.empty⟩
  obtain ⟨job', hc, hs, hd, he⟩ := h.closed hm hr hterm
  have hj : isUuidHex j = true := (h.ids.sent t j p hm).1
  obtain ⟨Γ', -, h'⟩ := rules.reaches (watch_sound service) hw' ⟨Γ, hΓ, h.knows hc⟩
  obtain ⟨job'', hF, hc'⟩ := (h'.jobs t j hj).resolve_left fun ⟨hF, _⟩ => by
    rw [endedAs_self] at hF
    cases hF
  obtain rfl : job' = job'' := hF job' endedAs_self
  refine ⟨fun job₁ h₁ => ?_, hs ▸ hc'.pushed, hs ▸ hc'.failed, hs ▸ hc'.done⟩
  obtain ⟨x, hx, hv⟩ := entry_of_record? h₁
  obtain ⟨job₂, hv₂, -, -, hs₂, hd₂, he₂⟩ := hc'.record x (lookup_of_live? hx)
  rw [hv] at hv₂
  cases hv₂
  exact ⟨hs₂.trans hs.symm, hd₂.trans hd.symm, he₂.trans he.symm⟩

end Run

/-! ### A message that is handed out again -/

namespace Redelivery

def service : IngestionJobService := { jobs := ⟨86400⟩, payloads := ⟨86400⟩, deadLetters := {}, maxAttempts := 3 }

def payload : String := "00000000000000000000000000000001"

def job : String := "00000000000000000000000000000002"

def upload : DocumentUpload := { filename := "a.md", contentType := none, data := [65] }

def record : DocumentRecord where
  docId := "d"
  title := "t"
  filename := "a.md"
  contentType := none
  sizeBytes := 1
  pages := none
  chunks := 1
  chunker := "c"
  createdAt := 0

def okay (i n : Nat) : List (system service).Act := List.replicate n (.op i .ok)

/-- The upload, and a delivery that finishes the job but whose worker is lost before the message is
    acknowledged. -/
def finished : List (system service).Act :=
  [.start 0 (.submit "acme" upload none), .op 0 (.id payload), .op 0 .ok, .op 0 (.id job), .op 0 (.time 0),
    .op 0 (.time 0)] ++ okay 0 4 ++
  [.start 1 (.execute "acme" job payload)] ++ okay 1 2 ++ [.op 1 (.time 1)] ++ okay 1 3 ++
  [.op 1 (.seconds 0), .op 1 (.ingested record), .op 1 .ok, .op 1 (.time 2)] ++ okay 1 3 ++
  [.op 1 (.seconds 1), .kill 1]

/-- The message is handed out again: its payload is gone. -/
def redelivered : List (system service).Act :=
  [.start 2 (.execute "acme" job payload)] ++ okay 2 2 ++ [.op 2 (.time 3)] ++ okay 2 3 ++ [.op 2 (.time 4)] ++ okay 2 4

/-- The status that is stored for the job after a run. -/
def status (as : List (system service).Act) : Option JobStatus :=
  ((emptyPool service).run as).bind fun w => (w.state.record? "acme" job).map IngestJob.status

/-- The message of the job is in the broker's queue after a run. -/
def sent (as : List (system service).Act) : Bool :=
  ((emptyPool service).run as).any fun w => w.state.messages.contains ("acme", job, payload)

theorem status_finished : status finished = some .done := by decide +kernel
theorem sent_finished : sent finished = true := by decide +kernel
theorem status_redelivered : (((emptyPool service).run finished).bind fun w => w.run redelivered).bind
    (fun w => (w.state.record? "acme" job).map IngestJob.status) = some .failed := by decide +kernel

/-- A job that is done fails when its message is handed out once more. -/
theorem not_terminal_absorbing : ¬Absorbing service World.anyStep := by
  intro h
  obtain ⟨w, hw, hdone⟩ := Option.bind_eq_some_iff.mp status_finished
  obtain ⟨job₁, h₁, hs₁⟩ := Option.map_eq_some_iff.mp hdone
  obtain ⟨w', hw', hfailed⟩ := Option.bind_eq_some_iff.mp status_redelivered
  rw [hw] at hw'
  obtain ⟨job₂, h₂, hs₂⟩ := Option.map_eq_some_iff.mp hfailed
  have hm : ("acme", job, payload) ∈ w.state.messages := by
    have := sent_finished
    rw [sent, hw] at this
    exact List.contains_iff_mem.mp this
  have := ((h w w' (World.reaches_of_run (fun _ _ _ => trivial) hw)
    (World.reaches_of_run (fun _ _ _ => trivial) hw') _ _ _ hm job₁ h₁ (by rw [hs₁]; rfl)).record
    job₂ h₂).1
  rw [hs₁, hs₂] at this
  cases this

end Redelivery

end NexusGate.Workers
