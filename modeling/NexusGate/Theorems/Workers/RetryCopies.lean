import NexusGate.Theorems.Workers.RetrySteps

/-! # The messages of a job

A delivery publishes its message anew, is settled or sleeps before it runs the job again; an upload sends a message of
its own. -/

namespace NexusGate.Workers
open Async Async.System Redis Rag

variable {q : Driver} {t j : String}

section Steps
variable {s s' : Backend} {jobs : State} {tr : List q.system.Event} {Γ : DriverBoard} {i tag : Nat} {c : DriverCall} {m : Message}
  {g g' : (Unit × Unit) × Phase × Leg} {n n' : Int} {v : q.system.Event} {e : Op} {r : Except Exn e.Reply} {ch : Choice}

/-! ### Copies of messages -/

theorem Copies.old (h : Copies t j s Γ) {m' : Message} (hm : s.copies tag = some m) : (s.put m').copies tag = some m := by
  have hne : tag ≠ s.next := by
    rintro rfl
    rw [h.unused _ le_rfl] at hm
    cases hm
  exact (Function.update_of_ne hne _ _).trans hm

theorem DriverInv.ended_did (h : DriverInv t j s tr Γ) {e : DriverOp} {r : Except Exn e.Reply} :
    ∀ i' tag m r', .ended i' (.run tag m) r' ∈ (.did i c e r : q.system.Event) :: tr → m.job = (t, j) → Finished r' := by
  intro i' tag m r' hmem hjob
  rcases List.mem_cons.mp hmem with heq | hmem
  · exact absurd heq.symm (not_ended i' tag m r')
  · exact h.ended i' tag m r' hmem hjob

/-- A delivery publishes its message anew. -/
theorem DriverInv.publishes (h : DriverInv t j s tr Γ) (hi : Γ i = some (.run tag m, g)) {k : Nat} {countdown : ℚ}
    {r : Except Exn (DriverOp.Reply (.publish { m with retries := k } countdown))} (hphase : g'.2.1 = g.2.1)
    (hg : m.job ≠ (t, j) ∧ g'.2.2 = g.2.2 ∨ m.job = (t, j) ∧ g'.2.2 = .closed ∧ ∃ l a, g.2.2 = .raised l a ∧ k = l + 1) :
    DriverInv t j (s.put { m with retries := k }) (.did i (.run tag m) (.publish { m with retries := k } countdown) r :: tr)
      (Function.update Γ i (some (.run tag m, g'))) := by
  have hpend : ∀ P : Leg → Prop, Pending t j s Γ P →
      Pending t j (s.put { m with retries := k }) (Function.update Γ i (some (.run tag m, g'))) P := by
    intro P hP
    rcases hg with ⟨-, hsame⟩ | ⟨hm, -⟩
    · exact hP.step _ hi (fun _ _ hm _ _ => h.copies.old hm) (by rw [hsame]; exact id)
    · exact h.copies.fresh hi (show Message.job { m with retries := k } = (t, j) from hm) (Function.update_self _ _ _)
  have hsent : (m.tenantId, m.jobId, m.payloadId) ∈ s.jobs.messages :=
    h.keys.running i _ _ _ () (by simp only [calls, hi, Option.map_some, DriverCall.call])
  refine ⟨by rw [calls_same hi]; exact h.keys, h.arrivals.step hi rfl rfl id hphase, ?_, ?_, fun p hp => ?_, fun howed => ?_,
    h.ended_did⟩
  · refine (h.copies.put (m := { m with retries := k }) hsent).step (s.put { m with retries := k }) hi rfl rfl
      (fun _ hx => hx) fun hover => ?_
    rcases hg with ⟨-, hsame⟩ | ⟨-, hend, -⟩
    · rw [← hsame]
      exact hover
    · exact absurd hend hover
  · obtain ⟨n, hn⟩ := h.counts
    refine ⟨n, hn.step hi hn.counter le_rfl (fun tag' m' hm' hjob => ?_) fun tag' m' hc hjob => ?_⟩
    · rcases board_entry hm' with ⟨-, rfl⟩ | ⟨-, hm'⟩
      · rcases hg with ⟨hne, -⟩ | ⟨hm, -, l, a, hleg, rfl⟩
        · exact absurd hjob hne
        · have hbound := hn.legs i tag m g hi hm
          rw [hleg] at hbound
          exact Or.inr (hbound.1.trans hbound.2)
      · exact Or.inl hm'
    · cases hc
      rcases hg with ⟨hne, -⟩ | ⟨-, hend, -⟩
      · exact absurd hjob hne
      · rw [hend]
        trivial
  · obtain ⟨job, hrec, hend⟩ := h.recorded p hp
    exact ⟨job, hrec, hend.imp_right (hpend _)⟩
  · exact hpend _ (h.debt ((owed_aside (by rfl) (by rfl)).symm.trans howed))

/-- A copy is let go of by the delivery that had it. -/
theorem DriverInv.settles (h : DriverInv t j s tr Γ) (hi : Γ i = some (.run tag m, g))
    {r : Except Exn (DriverOp.Reply (.settle tag))} (hphase : g'.2.1 = g.2.1) (hleg : g'.2.2 = g.2.2)
    (hover : m.job = (t, j) → g.2.2 = .closed) :
    DriverInv t j (s.settle tag) (.did i (.run tag m) (.settle tag) r :: tr) (Function.update Γ i (some (.run tag m, g'))) := by
  have hpend : ∀ P : Leg → Prop, ¬P .closed → Pending t j s Γ P →
      Pending t j (s.settle tag) (Function.update Γ i (some (.run tag m, g'))) P := by
    intro P hP hpend
    refine hpend.step _ hi (fun tag' m' hm' hjob hall => ?_) (by rw [hleg]; exact id)
    have hne : tag' ≠ tag := by
      rintro rfl
      obtain rfl := h.copies.same i tag' m g hi m' hm'
      exact hP (hover hjob ▸ hall i m' g hi)
    exact (Function.update_of_ne hne _ _).trans hm'
  have hstep : Copies t j s (Function.update Γ i (some (.run tag m, g'))) :=
    h.copies.step s hi rfl rfl (fun _ hx => hx) (by rw [hleg]; exact id)
  have hcopies : ∀ {tag' m'}, (s.settle tag).copies tag' = some m' → s.copies tag' = some m' := fun hm' => (clear_entry hm').2
  refine ⟨by rw [calls_same hi]; exact h.keys, h.arrivals.step hi rfl rfl id hphase, ?_, ?_, fun p hp => ?_, fun howed => ?_,
    h.ended_did⟩
  · refine ⟨fun tag' m' hm' => h.copies.sent tag' m' (hcopies hm'), fun tag' htag => ?_, hstep.used, hstep.alone,
      fun i' tag' m' x hx m'' hm'' => hstep.same i' tag' m' x hx m'' (hcopies hm''), fun i' tag' m' x hx hjob hx' => ?_⟩
    · have hne : tag' ≠ tag := ne_of_gt (lt_of_lt_of_le (h.copies.used i tag m g hi) htag)
      exact (Function.update_of_ne hne _ _).trans (h.copies.unused tag' htag)
    · have hne : tag' ≠ tag := by
        rintro rfl
        obtain ⟨y, hy, ⟨-, hc, -, rfl⟩ | ⟨hne, -⟩⟩ := went_on hi hx
        · cases hc
          exact hx' (hleg.trans (hover hjob))
        · exact hne (h.copies.alone _ _ _ _ _ _ _ hy hi)
      exact (Function.update_of_ne hne _ _).trans (hstep.held i' tag' m' x hx hjob hx')
  · obtain ⟨n, hn⟩ := h.counts
    refine ⟨n, hn.step hi hn.counter le_rfl (fun _ _ hm' _ => Or.inl (hcopies hm')) fun tag' m' hc hjob => ?_⟩
    cases hc
    rw [hleg, hover hjob]
    trivial
  · obtain ⟨job, hrec, hend⟩ := h.recorded p hp
    exact ⟨job, hrec, hend.imp_right (hpend _ (fun hne => hne rfl))⟩
  · exact hpend _ id (h.debt ((owed_aside (by rfl) (by rfl)).symm.trans howed))

/-- The loop goes to sleep. -/
theorem DriverInv.sleeps (h : DriverInv t j s tr Γ) (hi : Γ i = some (.run tag m, g)) {seconds : ℚ}
    {r : Except Exn (DriverOp.Reply (.sleep seconds))} (hphase : g'.2.1 = g.2.1)
    (hg : g'.2.2 = g.2.2 ∨ ∃ k a, g.2.2 = .raised k a ∧ g'.2.2 = .ready (k + 1)) :
    DriverInv t j s (.did i (.run tag m) (.sleep seconds) r :: tr) (Function.update Γ i (some (.run tag m, g'))) := by
  have hun : Untouched t j s.jobs s.jobs := .refl
  refine h.untouched hi hun h.keys not_ended hphase ?_ (fun n hn => ?_) fun howed => ?_
  · rcases hg with hsame | ⟨k, a, hleg, hleg'⟩
    · rw [hsame]
    · rw [hleg, hleg']
      exact ⟨nofun, nofun⟩
  · rcases hg with hsame | ⟨k, a, hleg, hleg'⟩
    · exact hsame ▸ hn
    · rw [hleg] at hn
      rw [hleg']
      exact hn.1.trans hn.2
  · refine (h.debt ((owed_aside (by rfl) (by rfl)).symm.trans howed)).step s hi (fun _ _ hm _ _ => hm) fun hw => ?_
    rcases hg with hsame | ⟨k, a, -, hleg'⟩
    · exact hsame ▸ hw
    · rw [hleg']
      trivial

/-! ### Uploads -/

section Upload
variable {t' : String} {upload : DocumentUpload} {requestId : Option String} {phase : Phase} {id : String}

/-- The events of an upload are no events of a delivery. -/
theorem owed_submit {e : DriverOp} {r : Except Exn e.Reply} :
    owed t j (.did i (.submit t' upload requestId) e r :: tr : List q.system.Event) = owed t j tr :=
  owed_aside (by cases e <;> rfl) (by cases e <;> rfl)

/-- An upload draws an id. -/
theorem DriverInv.draws (h : DriverInv t j s tr Γ) (hi : Γ i = some (.submit t' upload requestId, g)) (hid : id ∉ s.jobs.drawn)
    (hkeys : KeyInv (fun _ => True) { s.jobs with drawn := id :: s.jobs.drawn } (calls Γ))
    {r : Except Exn (DriverOp.Reply (.job .uuid))} (hg : g'.2.2 = g.2.2) (hphase : g'.2.1 = .drawing ∨ g'.2.1 = .holds id) :
    DriverInv t j { s with jobs := { s.jobs with drawn := id :: s.jobs.drawn } } (.did i (.submit t' upload requestId) (.job .uuid) r :: tr)
      (Function.update Γ i (some (.submit t' upload requestId, g'))) := by
  have hown : g'.2.1.owns = some j → id = j := by
    rcases hphase with hp | hp <;> rw [hp]
    · nofun
    · exact Option.some.inj
  have hnot : ∀ i' c' x, Γ i' = some (c', x) → x.2.1.owns = some j → g'.2.1.owns ≠ some j := by
    rintro i' c' x hx ho ho'
    obtain rfl := hown ho'
    exact hid (h.arrivals.owner i' c' x hx ho)
  refine ⟨by rw [calls_same hi]; exact hkeys, ⟨fun t'' p hm => ?_, fun i' c' x hx ho => ?_, fun i₁ i₂ c₁ c₂ x y hx hy ho ho' => ?_,
    fun i' c' x hx hp => ?_, fun i' u x y hx hp => ?_⟩, ?_, ?_, ?_, fun howed => ?_, h.ended_did⟩
  · exact List.mem_cons_of_mem _ (h.arrivals.drawn t'' p hm)
  · obtain ⟨y, hy, ⟨-, -, -, rfl⟩ | ⟨-, rfl⟩⟩ := went_on hi hx
    · exact hown ho ▸ List.mem_cons_self
    · exact List.mem_cons_of_mem _ (h.arrivals.owner i' c' x hy ho)
  · obtain ⟨x', hx', ⟨rfl, -, -, rfl⟩ | ⟨-, rfl⟩⟩ := went_on hi hx
    · obtain ⟨y', hy', ⟨rfl, -, -, rfl⟩ | ⟨-, rfl⟩⟩ := went_on hi hy
      · rfl
      · exact absurd ho (hnot _ _ _ hy' ho')
    · obtain ⟨y', hy', ⟨-, -, -, rfl⟩ | ⟨-, rfl⟩⟩ := went_on hi hy
      · exact absurd ho' (hnot _ _ _ hx' ho)
      · exact h.arrivals.single i₁ i₂ c₁ c₂ _ _ hx' hy' ho ho'
  · obtain ⟨y, hy, ⟨-, -, -, rfl⟩ | ⟨-, rfl⟩⟩ := went_on hi hx
    · obtain rfl := hown (by rw [hp]; rfl)
      exact fun t'' p hm => hid (h.arrivals.drawn t'' p hm)
    · exact h.arrivals.unsent i' c' x hy hp
  · obtain ⟨z, hz, ⟨-, -, -, rfl⟩ | ⟨-, rfl⟩⟩ := went_on hi hx
    · rcases hphase with hp' | hp' <;> rw [hp'] at hp <;> cases hp
    · exact h.arrivals.saved i' u x y hz hp
  · exact h.copies.step _ hi rfl rfl (fun _ hx => hx) (by rw [hg]; exact fun h => h)
  · obtain ⟨n, hn⟩ := h.counts
    exact ⟨n, hn.step hi hn.counter le_rfl (fun _ _ hm _ => Or.inl hm) nofun⟩
  · exact h.recorded.step hi rfl rfl (by rw [hg]; exact fun h => h)
  · rw [owed_submit] at howed
    exact (h.debt howed).step _ hi (fun _ _ hm _ _ => hm) (by rw [hg]; exact fun h => h)

/-- An upload stores the record of its job. -/
theorem DriverInv.uploads (hj : isUuidHex j = true) (h : DriverInv t j s tr Γ) (hi : Γ i = some (.submit t' upload requestId, g))
    {job : IngestJob} {x : Int} {r : Except Exn (Op.Reply (.multi (q.service.jobs.saveCmds job x)))}
    (hby : Op.By q.service t' (.multi (q.service.jobs.saveCmds job x))) (ht : job.tenantId = t')
    (hjob : isUuidHex job.jobId = true) (hex : exec (.multi (q.service.jobs.saveCmds job x)) ch s.jobs = some (r, jobs))
    (hok : succeeded r = true) (hkeys : KeyInv (fun _ => True) jobs (calls Γ)) (hleg : g'.2.2 = g.2.2)
    (hphase : g.2.1 = .holds job.jobId) (hphase' : g'.2.1 = .saved job.jobId) :
    DriverInv t j { s with jobs } (.did i (.submit t' upload requestId) (.job (.multi (q.service.jobs.saveCmds job x))) r :: tr)
      (Function.update Γ i (some (.submit t' upload requestId, g'))) := by
  obtain ⟨hrest, -, -⟩ := exec_save hjob hex
  have hnew : jobs.record? job.tenantId job.jobId = some job := record_of_save q.retention_pos hex hok
  have hcounter : jobs.store.lookup (attemptsKey t j) = s.jobs.store.lookup (attemptsKey t j) := Counter.aside hby rfl hex
  have hsame : (t, j) ≠ (job.tenantId, job.jobId) → jobs.record? t j = s.jobs.record? t j := fun hne =>
    (untouched_save hj hjob hne hex).record?
  have hrecord : (∃ job, s.jobs.record? t j = some job) → ∃ job, jobs.record? t j = some job := by
    intro hrec
    by_cases hne : (t, j) = (job.tenantId, job.jobId)
    · obtain ⟨rfl, rfl⟩ := Prod.mk.inj hne
      exact ⟨job, hnew⟩
    · exact hsame hne ▸ hrec
  have howns : ∀ {i' c' z}, Function.update Γ i (some (.submit t' upload requestId, g')) i' = some (c', z) →
      ∃ y, Γ i' = some (c', y) ∧ z.2.1.owns = y.2.1.owns ∧ (i' = i ∧ c' = .submit t' upload requestId ∧ z = g' ∨ z = y) := by
    intro i' c' z hz
    obtain ⟨y, hy, ⟨rfl, rfl, rfl, rfl⟩ | ⟨-, rfl⟩⟩ := went_on hi hz
    · exact ⟨y, hy, by rw [hphase, hphase']; rfl, Or.inl ⟨rfl, rfl, rfl⟩⟩
    · exact ⟨z, hy, rfl, Or.inr rfl⟩
  refine ⟨by rw [calls_same hi]; exact hkeys, ⟨fun t'' p hm => ?_, fun i' c' z hz ho => ?_, fun i₁ i₂ c₁ c₂ z z' hz hz' ho ho' => ?_,
    fun i' c' z hz hp => ?_, fun i' u r z hz hp => ?_⟩, ?_, ?_, fun p hp => ?_, fun howed => ?_, h.ended_did⟩
  · rw [hrest.drawn]
    exact h.arrivals.drawn t'' p (hrest.messages ▸ hm)
  · obtain ⟨y, hy, hown, -⟩ := howns hz
    rw [hrest.drawn]
    exact h.arrivals.owner i' c' y hy (hown ▸ ho)
  · obtain ⟨y, hy, hown, -⟩ := howns hz
    obtain ⟨y', hy', hown', -⟩ := howns hz'
    exact h.arrivals.single i₁ i₂ c₁ c₂ y y' hy hy' (hown ▸ ho) (hown' ▸ ho')
  · obtain ⟨y, hy, -, ⟨-, -, rfl⟩ | rfl⟩ := howns hz
    · rw [hphase'] at hp
      cases hp
    · rw [hrest.messages]
      exact h.arrivals.unsent i' c' z hy hp
  · obtain ⟨y, hy, -, ⟨-, hc, rfl⟩ | rfl⟩ := howns hz
    · cases hc
      rw [hphase'] at hp
      cases hp
      exact ⟨job, ht ▸ hnew⟩
    · exact hrecord (h.arrivals.saved i' u r z hy hp)
  · exact h.copies.step { s with jobs } hi rfl rfl (fun x hx => by rw [show jobs.messages = _ from hrest.messages]; exact hx)
      (by rw [hleg]; exact fun h => h)
  · obtain ⟨n, hn⟩ := h.counts
    refine ⟨n, hn.step hi ?_ le_rfl (fun _ _ hm _ => Or.inl hm) nofun⟩
    rw [show jobs.now = _ from hrest.now]
    exact (int?_congr (value?_congr hcounter)).trans hn.counter
  · have hp : (t, j, p) ∈ s.jobs.messages := hrest.messages ▸ hp
    obtain ⟨job', hrec, hend⟩ := h.recorded p hp
    by_cases hne : (t, j) = (job.tenantId, job.jobId)
    · obtain ⟨rfl, rfl⟩ := Prod.mk.inj hne
      exact absurd hp (h.arrivals.unsent i _ g hi hphase _ p)
    · exact ⟨job', (hsame hne).trans hrec, hend.imp_right fun hpend =>
        hpend.step { s with jobs } hi (fun _ _ hm _ _ => hm) (by rw [hleg]; exact fun h => h)⟩
  · rw [owed_submit] at howed
    exact (h.debt howed).step { s with jobs } hi (fun _ _ hm _ _ => hm) (by rw [hleg]; exact fun h => h)

/-- An upload sends the message of its job. -/
theorem DriverInv.sends (h : DriverInv t j s tr Γ) (hi : Γ i = some (.submit t' upload requestId, g)) {job : IngestJob} {p : String}
    {r : Except Exn (DriverOp.Reply (.job (.enqueue job p)))} (ht : job.tenantId = t') (hphase : g.2.1 = .saved job.jobId)
    (hsent : jobs = { s.jobs with messages := (job.tenantId, job.jobId, p) :: s.jobs.messages })
    (hkeys : KeyInv (fun _ => True) jobs (calls Γ)) (hg : g'.2 = g.2) :
    DriverInv t j ({ s with jobs }.put { tenantId := job.tenantId, jobId := job.jobId, payloadId := p })
      (.did i (.submit t' upload requestId) (.job (.enqueue job p)) r :: tr)
      (Function.update Γ i (some (.submit t' upload requestId, g'))) := by
  have hmono : ∀ y ∈ s.jobs.messages, y ∈ jobs.messages := fun y hy => by rw [hsent]; exact List.mem_cons_of_mem _ hy
  have hmine : (job.tenantId, job.jobId, p) ∈ jobs.messages := by rw [hsent]; exact List.mem_cons_self
  have hrecord : jobs.record? t j = s.jobs.record? t j := by rw [hsent]; rfl
  have hpend : ∀ P : Leg → Prop, Pending t j s Γ P →
      Pending t j ({ s with jobs }.put { tenantId := job.tenantId, jobId := job.jobId, payloadId := p })
        (Function.update Γ i (some (.submit t' upload requestId, g'))) P := fun P hP =>
    hP.step _ hi (fun _ _ hm _ _ => h.copies.old hm) (by rw [hg]; exact fun h => h)
  have hphases : ∀ {i' c' z}, Function.update Γ i (some (.submit t' upload requestId, g')) i' = some (c', z) →
      ∃ y, Γ i' = some (c', y) ∧ z.2 = y.2 := by
    intro i' c' z hz
    obtain ⟨y, hy, ⟨-, -, rfl, rfl⟩ | ⟨-, rfl⟩⟩ := went_on hi hz
    · exact ⟨y, hy, hg⟩
    · exact ⟨z, hy, rfl⟩
  refine ⟨by rw [calls_same hi]; exact hkeys, ⟨fun t'' p' hm => ?_, fun i' c' z hz ho => ?_, fun i₁ i₂ c₁ c₂ z z' hz hz' ho ho' => ?_,
    fun i' c' z hz hp t'' p' hm => ?_, fun i' u r z hz hp => ?_⟩, ?_, ?_, fun p' hp => ?_, fun howed => ?_, h.ended_did⟩
  · have hm : (t'', j, p') ∈ jobs.messages := hm
    rw [hsent] at hm
    show j ∈ jobs.drawn
    rw [hsent]
    rcases List.mem_cons.mp hm with heq | hm
    · cases heq
      exact h.arrivals.owner i _ g hi (by rw [hphase]; rfl)
    · exact h.arrivals.drawn t'' p' hm
  · obtain ⟨y, hy, hzy⟩ := hphases hz
    show j ∈ jobs.drawn
    rw [hsent]
    exact h.arrivals.owner i' c' y hy (by rw [← hzy]; exact ho)
  · obtain ⟨y, hy, hzy⟩ := hphases hz
    obtain ⟨y', hy', hzy'⟩ := hphases hz'
    exact h.arrivals.single i₁ i₂ c₁ c₂ y y' hy hy' (by rw [← hzy]; exact ho) (by rw [← hzy']; exact ho')
  · obtain ⟨y, hy, hzy⟩ := hphases hz
    rw [hzy] at hp
    have hm : (t'', j, p') ∈ jobs.messages := hm
    rw [hsent] at hm
    rcases List.mem_cons.mp hm with heq | hm
    · cases heq
      obtain rfl := h.arrivals.single i' i c' _ y g hy hi (by rw [hp]; rfl) (by rw [hphase]; rfl)
      rw [hi] at hy
      cases hy
      rw [hphase] at hp
      cases hp
    · exact h.arrivals.unsent i' c' y hy hp t'' p' hm
  · obtain ⟨y, hy, hzy⟩ := hphases hz
    obtain ⟨job', hrec⟩ := h.arrivals.saved i' u r y hy (by rw [← hzy]; exact hp)
    exact ⟨job', hrecord.trans hrec⟩
  · have hcopies : Copies t j { s with jobs } (Function.update Γ i (some (.submit t' upload requestId, g'))) :=
      h.copies.step { s with jobs } hi rfl rfl hmono (by rw [hg]; exact fun h => h)
    exact hcopies.put hmine
  · obtain ⟨n, hn⟩ := h.counts
    refine ⟨n, hn.step hi ?_ le_rfl (fun tag m hm _ => ?_) nofun⟩
    · show int? jobs.now jobs.store _ = _
      rw [hsent]
      exact hn.counter
    · rcases board_entry hm with ⟨-, rfl⟩ | ⟨-, hm⟩
      · exact Or.inr hn.nonneg
      · exact Or.inl hm
  · have hp : (t, j, p') ∈ jobs.messages := hp
    rw [hsent] at hp
    rcases List.mem_cons.mp hp with heq | hp
    · cases heq
      subst ht
      obtain ⟨job', hrec⟩ := h.arrivals.saved i upload requestId g hi hphase
      exact ⟨job', hrecord.trans hrec, Or.inr (h.copies.fresh hi rfl (Function.update_self _ _ _))⟩
    · obtain ⟨job', hrec, hend⟩ := h.recorded p' hp
      exact ⟨job', hrecord.trans hrec, hend.imp_right (hpend _)⟩
  · rw [owed_submit] at howed
    exact hpend _ (h.debt howed)

end Upload
end Steps

end NexusGate.Workers
