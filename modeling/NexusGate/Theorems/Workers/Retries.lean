import NexusGate.Theorems.Workers.RetryCopies

/-! # Every retry that is asked for

In every run in which the stores answer, one worker takes the messages and Redis keeps the job's keys, a retry that a
delivery asks for comes: the job ends, or somebody runs it again. -/

namespace NexusGate.Workers
open Async Async.System Redis Rag

variable {q : Driver} {t j : String}

/-! ### Every run -/

section Run
variable {s s' : Backend} {tr : List q.system.Event} {Γ : DriverBoard} {i tag : Nat} {c : DriverCall} {m : Message}
  {g : (Unit × Unit) × Phase × Leg} {v : q.system.Event} {ch : Choice}

/-- A store that can be reached has answered. -/
def DriverOp.answered : (e : DriverOp) → Except Exn e.Reply → Prop
  | .job e, r => e.isIngest = false → succeeded r = true
  | _, _ => True

theorem multi_ne_enqueue {cs : List (Cmd Blob)} {job : IngestJob} {p : String} : Op.multi cs ≠ .enqueue job p := nofun

theorem by_save {service : IngestionJobService} {t' : String} {o : Op} {job : IngestJob} (hby : o.By service t')
    (hs : o.saves = some job) : job.tenantId = t' ∧ isUuidHex job.jobId = true := by
  cases hby with
  | save ht hj =>
    cases hs
    exact ⟨ht, hj⟩
  | _ => cases hs

theorem by_enqueue {service : IngestionJobService} {t' : String} {job : IngestJob} {p : String}
    (hby : Op.By service t' (.enqueue job p)) : job.tenantId = t' := by
  cases hby with
  | enqueue ht _ => exact ht

/-- A call is taken up. -/
theorem DriverInv.starts (h : DriverInv t j s tr Γ) (hΓ : Γ i = none)
    (hcopy : ∀ tag m, c = .run tag m → s.copies tag = some m ∧ ∀ i' m' g', Γ i' ≠ some (.run tag m', g')) :
    DriverInv t j s (.start i c :: tr) (Function.update Γ i (some (c, ((), ()), c.firstPhase, c.firstLeg q))) := by
  have hnone : c.firstPhase.owns = none := by cases c <;> rfl
  have hpend : ∀ P : Leg → Prop, (∀ k, P (.ready k)) → Pending t j s Γ P →
      Pending t j s (Function.update Γ i (some (c, ((), ()), c.firstPhase, c.firstLeg q))) P := by
    rintro P hP ⟨tag, m, hm, hjob, hall⟩
    refine ⟨tag, m, hm, hjob, fun i' m' x hx => ?_⟩
    rcases board_entry hx with ⟨rfl, heq⟩ | ⟨-, hx⟩
    · cases heq
      unfold DriverCall.firstLeg
      cases q.kind <;> exact hP _
    · exact hall i' m' x hx
  refine ⟨?_, ⟨h.arrivals.drawn, fun i' c' x hx ho => ?_, fun i₁ i₂ c₁ c₂ x y hx hy ho ho' => ?_, fun i' c' x hx hp => ?_,
    fun i' u r x hx hp => ?_⟩, ⟨h.copies.sent, h.copies.unused, fun i' tag m x hx => ?_, fun i₁ i₂ tag m m' x y hx hy => ?_,
    fun i' tag m x hx m' hm' => ?_, fun i' tag m x hx hjob hover => ?_⟩, ?_, fun p hp => ?_, fun howed => ?_, fun i' tag m r hmem => ?_⟩
  · rw [calls_update]
    refine h.keys.board fun c' g' heq => ?_
    cases heq
    refine ⟨trivial, fun t' j' p hc => ?_⟩
    cases c with
    | submit t' u x => cases hc
    | run tag m =>
      cases hc
      exact h.copies.sent tag m (hcopy tag m rfl).1
  · rcases board_entry hx with ⟨-, heq⟩ | ⟨-, hx⟩
    · cases heq
      rw [hnone] at ho
      cases ho
    · exact h.arrivals.owner i' c' x hx ho
  · rcases board_entry hx with ⟨-, heq⟩ | ⟨-, hx⟩
    · cases heq
      rw [hnone] at ho
      cases ho
    · rcases board_entry hy with ⟨-, heq⟩ | ⟨-, hy⟩
      · cases heq
        rw [hnone] at ho'
        cases ho'
      · exact h.arrivals.single i₁ i₂ c₁ c₂ x y hx hy ho ho'
  · rcases board_entry hx with ⟨-, heq⟩ | ⟨-, hx⟩
    · cases heq
      cases c <;> cases hp
    · exact h.arrivals.unsent i' c' x hx hp
  · rcases board_entry hx with ⟨-, heq⟩ | ⟨-, hx⟩
    · cases heq
      cases hp
    · exact h.arrivals.saved i' u r x hx hp
  · rcases board_entry hx with ⟨-, heq⟩ | ⟨-, hx⟩
    · cases heq
      have hm := (hcopy tag m rfl).1
      by_contra hle
      rw [h.copies.unused tag (not_lt.mp hle)] at hm
      cases hm
    · exact h.copies.used i' tag m x hx
  · rcases board_entry hx with ⟨rfl, heq⟩ | ⟨-, hold⟩
    · cases heq
      rcases board_entry hy with ⟨rfl, -⟩ | ⟨-, hold⟩
      · rfl
      · exact absurd hold ((hcopy tag m rfl).2 _ _ _)
    · rcases board_entry hy with ⟨-, heq⟩ | ⟨-, hold'⟩
      · cases heq
        exact absurd hold ((hcopy tag m' rfl).2 _ _ _)
      · exact h.copies.alone i₁ i₂ tag m m' x y hold hold'
  · rcases board_entry hx with ⟨-, heq⟩ | ⟨-, hx⟩
    · cases heq
      exact Option.some.inj (hm'.symm.trans (hcopy tag m rfl).1)
    · exact h.copies.same i' tag m x hx m' hm'
  · rcases board_entry hx with ⟨-, heq⟩ | ⟨-, hx⟩
    · cases heq
      exact (hcopy tag m rfl).1
    · exact h.copies.held i' tag m x hx hjob hover
  · obtain ⟨n, hn⟩ := h.counts
    refine ⟨n, hn.counter, hn.nonneg, hn.copies, fun i' tag m x hx hjob => ?_⟩
    rcases board_entry hx with ⟨-, heq⟩ | ⟨-, hx⟩
    · cases heq
      show (DriverCall.firstLeg q (.run tag m)).Bound n
      unfold DriverCall.firstLeg
      cases q.kind with
      | celery => exact hn.copies tag m (hcopy tag m rfl).1 hjob
      | inline => exact hn.nonneg
    · exact hn.legs i' tag m x hx hjob
  · obtain ⟨job, hrec, hend⟩ := h.recorded p hp
    exact ⟨job, hrec, hend.imp_right (hpend _ nofun)⟩
  · exact hpend _ (fun _ => trivial) (h.debt howed)
  · rcases List.mem_cons.mp hmem with heq | hmem
    · cases heq
    · exact h.ended i' tag m r hmem

/-- A call is taken off the board. -/
theorem DriverInv.leaves (h : DriverInv t j s tr Γ) (hb : begins t j v = false) (ha : asksAgain t j v = false)
    (hv : ∀ i tag m r, v = .ended i (.run tag m) r → m.job = (t, j) → Finished r) :
    DriverInv t j s (v :: tr) (Function.update Γ i none) := by
  have hpend : ∀ P : Leg → Prop, Pending t j s Γ P → Pending t j s (Function.update Γ i none) P := by
    rintro P ⟨tag, m, hm, hjob, hall⟩
    exact ⟨tag, m, hm, hjob, fun i' m' x hx => hall i' m' x (clear_entry hx).2⟩
  refine ⟨?_, ⟨h.arrivals.drawn, fun i' c' x hx => h.arrivals.owner i' c' x (clear_entry hx).2,
    fun i₁ i₂ c₁ c₂ x y hx hy => h.arrivals.single i₁ i₂ c₁ c₂ x y (clear_entry hx).2 (clear_entry hy).2,
    fun i' c' x hx => h.arrivals.unsent i' c' x (clear_entry hx).2, fun i' u r x hx => h.arrivals.saved i' u r x (clear_entry hx).2⟩,
    ⟨h.copies.sent, h.copies.unused, fun i' tag m x hx => h.copies.used i' tag m x (clear_entry hx).2,
    fun i₁ i₂ tag m m' x y hx hy => h.copies.alone i₁ i₂ tag m m' x y (clear_entry hx).2 (clear_entry hy).2,
    fun i' tag m x hx => h.copies.same i' tag m x (clear_entry hx).2, fun i' tag m x hx => h.copies.held i' tag m x (clear_entry hx).2⟩,
    ?_, fun p hp => ?_, fun howed => ?_, fun i' tag m r hmem hjob => ?_⟩
  · rw [calls_update]
    exact h.keys.board nofun
  · obtain ⟨n, hn⟩ := h.counts
    exact ⟨n, hn.counter, hn.nonneg, hn.copies, fun i' tag m x hx => hn.legs i' tag m x (clear_entry hx).2⟩
  · obtain ⟨job, hrec, hend⟩ := h.recorded p hp
    exact ⟨job, hrec, hend.imp_right (hpend _)⟩
  · rw [owed_aside hb ha] at howed
    exact hpend _ (h.debt howed)
  · rcases List.mem_cons.mp hmem with heq | hmem
    · exact hv i' tag m r heq.symm hjob
    · exact h.ended i' tag m r hmem hjob

/-- Time passes, without either key of the job expiring. -/
theorem DriverInv.passes (h : DriverInv t j s tr Γ) {ms : Nat} (hlive : ∀ k ∈ [jobKey t j, attemptsKey t j],
    live? (s.jobs.now + ms) s.jobs.store k = live? s.jobs.now s.jobs.store k) :
    DriverInv t j { s with jobs := { s.jobs with now := s.jobs.now + ms } } tr Γ := by
  have hvalue : ∀ k ∈ [jobKey t j, attemptsKey t j], value? (s.jobs.now + ms) s.jobs.store k = value? s.jobs.now s.jobs.store k :=
    fun k hk => congrArg (Option.map Entry.value) (hlive k hk)
  have hrecord : ({ s.jobs with now := s.jobs.now + ms } : State).record? t j = s.jobs.record? t j := by
    simp only [State.record?, hvalue _ List.mem_cons_self]
  refine ⟨⟨h.keys.keyed, h.keys.sent, h.keys.tenants, h.keys.running, h.keys.intact⟩,
    ⟨h.arrivals.drawn, h.arrivals.owner, h.arrivals.single, h.arrivals.unsent,
      fun i' u r x hx hp => hrecord ▸ h.arrivals.saved i' u r x hx hp⟩,
    ⟨h.copies.sent, h.copies.unused, h.copies.used, h.copies.alone, h.copies.same, h.copies.held⟩, ?_, fun p hp => ?_, h.debt, h.ended⟩
  · obtain ⟨n, hn⟩ := h.counts
    refine ⟨n, ?_, hn.nonneg, hn.copies, hn.legs⟩
    simp only [int?, hvalue (attemptsKey t j) (by simp)]
    exact hn.counter
  · obtain ⟨job, hrec, hend⟩ := h.recorded p hp
    exact ⟨job, hrecord.trans hrec, hend⟩

/-- A copy is delivered once more. -/
theorem DriverInv.redelivers (h : DriverInv t j s tr Γ) (hm : s.copies tag = some m) : DriverInv t j (s.put m) tr Γ := by
  have hpend : ∀ P : Leg → Prop, Pending t j s Γ P → Pending t j (s.put m) Γ P := fun P ⟨tag, m', hm', hjob, hall⟩ =>
    ⟨tag, m', h.copies.old hm', hjob, hall⟩
  refine ⟨h.keys, h.arrivals, h.copies.put (h.copies.sent tag m hm), ?_, fun p hp => ?_, fun howed => hpend _ (h.debt howed), h.ended⟩
  · obtain ⟨n, hn⟩ := h.counts
    refine ⟨n, hn.counter, hn.nonneg, fun tag' m' hm' hjob => ?_, hn.legs⟩
    rcases board_entry hm' with ⟨-, rfl⟩ | ⟨-, hm'⟩
    · exact hn.copies tag m hm hjob
    · exact hn.copies tag' m' hm' hjob
  · obtain ⟨job, hrec, hend⟩ := h.recorded p hp
    exact ⟨job, hrec, hend.imp_right (hpend _)⟩

/-- One operation of a delivery. -/
theorem DriverInv.delivers (hj : isUuidHex j = true) (h : DriverInv t j s tr Γ) (hi : Γ i = some (.run tag m, g)) {e : DriverOp}
    {r : Except Exn e.Reply} (hmay : ((driverWatch q t j).monitor (.run tag m)).may g e) (hex : driverExec e ch s = some (r, s'))
    (hok : e.answered r) : ∃ g', ((driverWatch q t j).monitor (.run tag m)).next g e r g' ∧
      DriverInv t j s' (.did i (.run tag m) e r :: tr) (Function.update Γ i (some (.run tag m, g'))) := by
  obtain ⟨⟨hkey, hown⟩, -, hlegs⟩ := hmay
  have hsent : (m.tenantId, m.jobId, m.payloadId) ∈ s.jobs.messages :=
    h.keys.running i _ _ _ () (by simp only [calls, hi, Option.map_some, DriverCall.call])
  have hhex : isUuidHex m.jobId = true := (h.keys.sent _ _ _ hsent).2
  by_cases hm : m.job = (t, j)
  · have hl : (DriverCall.run tag m).legs q t j = taskMonitor q.service m tag := if_pos hm
    rw [hl] at hlegs
    cases e with
    | job o =>
      have hby : o.By q.service m.tenantId := hkey hhex
      have hsends : ∀ job p, o ≠ .enqueue job p := by
        rintro job p rfl
        rcases hown.1 with ⟨hq, -⟩ | ⟨job', n, heq, -⟩
        · exact hq
        · cases heq
      obtain ⟨jobs, hjobs, rfl⟩ := driverExec_job hsends hex
      have hkeys := h.keys.step trivial hby hjobs
      have hanswer : (keyMonitor q.service m.tenantId m.jobId).next () o r () := h.keys.answer hhex hjobs
      have ht : m.tenantId = t := congrArg Prod.fst hm
      obtain ⟨leg, hnext, hinv⟩ := h.own hj hi hm hlegs hown (ht ▸ hby) hjobs hok hkeys
      have hnext : ((DriverCall.run tag m).legs q t j).next g.2.2 (.job o) r leg := by
        rw [hl]
        exact hnext
      exact ⟨(g.1, g.2.1, leg), ⟨⟨hanswer, fun job hget hload => hanswer.1 hget job hload⟩, rfl, hnext⟩, hinv⟩
    | publish m' countdown =>
      obtain ⟨k, a, hleg, rfl⟩ := hlegs
      cases hex
      have hnext : ((DriverCall.run tag m).legs q t j).next g.2.2 (.publish { m with retries := k + 1 } countdown) (.ok ()) .closed := by
        rw [hl, hleg]
        exact ⟨⟨(), rfl⟩, rfl⟩
      exact ⟨(g.1, g.2.1, .closed), ⟨⟨rfl, trivial⟩, rfl, hnext⟩,
        h.publishes hi rfl (Or.inr ⟨hm, rfl, k, a, hleg, rfl⟩)⟩
    | settle tag' =>
      obtain ⟨hleg, rfl⟩ := hlegs
      cases hex
      have hnext : ((DriverCall.run tag' m).legs q t j).next g.2.2 (.settle tag') (.ok ()) g.2.2 := by
        rw [hl, hleg]
        exact ⟨⟨(), rfl⟩, rfl⟩
      exact ⟨(g.1, g.2.1, g.2.2), ⟨⟨rfl, trivial⟩, rfl, hnext⟩, h.settles hi rfl rfl fun _ => hleg⟩
    | sleep seconds =>
      obtain ⟨k, a, hleg⟩ := hlegs
      cases hex
      have hnext : ((DriverCall.run tag m).legs q t j).next g.2.2 (.sleep seconds) (.ok ()) (.ready (k + 1)) := by
        rw [hl, hleg]
        exact ⟨rfl, rfl⟩
      exact ⟨(g.1, g.2.1, .ready (k + 1)), ⟨⟨rfl, trivial⟩, rfl, hnext⟩, h.sleeps hi rfl (Or.inr ⟨k, a, hleg, rfl⟩)⟩
  · have hl : (DriverCall.run tag m).legs q t j = .idle := if_neg hm
    have hstay : ∀ {e : DriverOp} {r : Except Exn e.Reply}, ((DriverCall.run tag m).legs q t j).next g.2.2 e r g.2.2 := by
      rw [hl]
      exact rfl
    cases e with
    | job o =>
      have hby : o.By q.service m.tenantId := hkey hhex
      have hsends : ∀ job p, o ≠ .enqueue job p := by
        rintro job p rfl
        rcases hown.1 with ⟨hq, -⟩ | ⟨job', n, heq, -⟩
        · exact hq
        · cases heq
      obtain ⟨jobs, hjobs, rfl⟩ := driverExec_job hsends hex
      have hkeys := h.keys.step trivial hby hjobs
      have hanswer : (keyMonitor q.service m.tenantId m.jobId).next () o r () := h.keys.answer hhex hjobs
      obtain ⟨hb, ha⟩ := @events_other q t j i tag m hm (.job o) r
      exact ⟨(g.1, g.2), ⟨⟨hanswer, fun job hget hload => hanswer.1 hget job hload⟩, rfl, hstay⟩,
        h.aside hi (untouched_other hj hhex hm hby hown hjobs) hkeys not_ended hb ha rfl⟩
    | publish m' countdown =>
      obtain ⟨k, rfl⟩ : ∃ k, m' = { m with retries := k } := ⟨_, hown⟩
      cases hex
      exact ⟨(g.1, g.2), ⟨⟨rfl, trivial⟩, rfl, hstay⟩, h.publishes hi rfl (Or.inl ⟨hm, rfl⟩)⟩
    | settle tag' =>
      obtain rfl : tag' = tag := hown
      cases hex
      exact ⟨(g.1, g.2), ⟨⟨rfl, trivial⟩, rfl, hstay⟩, h.settles hi rfl rfl fun hjob => absurd hjob hm⟩
    | sleep seconds =>
      cases hex
      exact ⟨(g.1, g.2), ⟨⟨rfl, trivial⟩, rfl, hstay⟩, h.sleeps hi rfl (Or.inl rfl)⟩

/-- One operation of an upload. -/
theorem DriverInv.submits (hj : isUuidHex j = true) (h : DriverInv t j s tr Γ) {t' : String} {upload : DocumentUpload}
    {requestId : Option String} (hi : Γ i = some (.submit t' upload requestId, g)) {e : DriverOp} {r : Except Exn e.Reply}
    (hmay : ((driverWatch q t j).monitor (.submit t' upload requestId)).may g e) (hex : driverExec e ch s = some (r, s'))
    (hok : e.answered r) : ∃ g', ((driverWatch q t j).monitor (.submit t' upload requestId)).next g e r g' ∧
      DriverInv t j s' (.did i (.submit t' upload requestId) e r :: tr) (Function.update Γ i (some (.submit t' upload requestId, g'))) := by
  obtain ⟨⟨hkey, hown⟩, hupload, -⟩ := hmay
  have hhex : isUuidHex "00000000000000000000000000000000" = true := by decide
  cases e with
  | publish m' countdown => exact hown.elim
  | settle tag' => exact hown.elim
  | sleep seconds => exact hown.elim
  | job o =>
    have hby : o.By q.service t' := hkey hhex
    have hplain : ∀ (_ : o.Plain) (_ : (uploadMonitor q.service).next g.2.1 o r g.2.1),
        ∃ g', ((driverWatch q t j).monitor (.submit t' upload requestId)).next g (.job o) r g' ∧
          DriverInv t j s' (.did i (.submit t' upload requestId) (.job o) r :: tr)
            (Function.update Γ i (some (.submit t' upload requestId, g'))) := by
      intro hp hnext
      have hsends : ∀ job p, o ≠ .enqueue job p := by
        rintro job p rfl
        exact hp.quiet
      obtain ⟨jobs, hjobs, rfl⟩ := driverExec_job hsends hex
      have hun : Untouched t j s.jobs jobs := untouched_quiet hj hby hp.quiet hown hjobs
      have hanswer : (keyMonitor q.service t' "00000000000000000000000000000000").next () o r () := h.keys.answer hhex hjobs
      exact ⟨g, ⟨⟨hanswer, trivial⟩, hnext, rfl⟩,
        h.aside hi hun (h.keys.step trivial hby hjobs) not_ended (by cases o <;> rfl) (by cases o <;> rfl) rfl⟩
    have hdraw : ∀ (_ : o = .uuid) (phase : String → Phase) (_ : ∀ id, phase id = .drawing ∨ phase id = .holds id)
        (_ : ∀ id r, r = .ok id → (uploadMonitor q.service).next g.2.1 .uuid r (phase id)),
        ∃ g', ((driverWatch q t j).monitor (.submit t' upload requestId)).next g (.job o) r g' ∧
          DriverInv t j s' (.did i (.submit t' upload requestId) (.job o) r :: tr)
            (Function.update Γ i (some (.submit t' upload requestId, g'))) := by
      rintro rfl phase hphase hnext
      have hsends : ∀ job p, Op.uuid ≠ .enqueue job p := fun _ _ h => by cases h
      obtain ⟨jobs, hjobs, rfl⟩ := driverExec_job hsends hex
      have hkeys := h.keys.step trivial hby hjobs
      have hanswer : (keyMonitor q.service t' "00000000000000000000000000000000").next () .uuid r () := h.keys.answer hhex hjobs
      obtain ⟨id, rfl, -, hnew, rfl⟩ := exec_uuid hjobs
      exact ⟨(g.1, phase id, g.2.2), ⟨⟨hanswer, trivial⟩, hnext id _ rfl, rfl⟩, h.draws hi hnew hkeys rfl (hphase id)⟩
    have hphase : ∀ {p : Phase}, g.2.1 = p → (uploadMonitor q.service).may p o := fun hp => hp ▸ hupload
    cases hp : g.2.1 with
    | parking => exact hdraw (hphase hp) (fun _ => .drawing) (fun _ => Or.inl rfl) fun _ _ _ => by rw [hp]; exact fun _ => rfl
    | drawing =>
      rcases hphase hp with ⟨hplain', hs⟩ | rfl
      · refine hplain hplain' ?_
        rw [hp]
        cases o with
        | uuid => exact hplain'.quiet.elim
        | _ => rfl
      · exact hdraw rfl .holds (fun _ => Or.inr rfl) fun _ _ hr => by rw [hp, hr]; rfl
    | holds j' =>
      rcases hphase hp with ⟨hplain', hs⟩ | ⟨job, n, rfl, rfl, -⟩
      · refine hplain hplain' ?_
        rw [hp]
        simp [uploadMonitor, hs]
      · have hsends : ∀ job' p, Op.multi (q.service.jobs.saveCmds job n) ≠ .enqueue job' p := fun _ _ => multi_ne_enqueue
        obtain ⟨jobs, hjobs, rfl⟩ := driverExec_job hsends hex
        have hr : succeeded r = true := hok rfl
        have hnext : (uploadMonitor q.service).next g.2.1 (.multi (q.service.jobs.saveCmds job n)) r (.saved job.jobId) := by
          rw [hp]
          simp [uploadMonitor, Op.saves, JobStore.saveCmds, hr]
        obtain ⟨ht, hjob⟩ := by_save hby (show Op.saves _ = some job from rfl)
        have hanswer : (keyMonitor q.service t' "00000000000000000000000000000000").next () (.multi (q.service.jobs.saveCmds job n)) r () :=
          h.keys.answer hhex hjobs
        have hkeys := h.keys.step trivial hby hjobs
        exact ⟨(g.1, .saved job.jobId, g.2.2), ⟨⟨hanswer, trivial⟩, hnext, rfl⟩,
          h.uploads hj hi hby ht hjob hjobs hr hkeys rfl hp rfl⟩
    | saved j' =>
      rcases hphase hp with ⟨hplain', hs⟩ | ⟨job, p, rfl, rfl⟩
      · exact hplain hplain' (by rw [hp]; rfl)
      · obtain ⟨jobs, hjobs, hcase⟩ := driverExec_enqueue hex
        have hnext : (uploadMonitor q.service).next g.2.1 (.enqueue job p) r g.2.1 := by rw [hp]; rfl
        have hkeys := h.keys.step trivial hby hjobs
        have hanswer : (keyMonitor q.service t' "00000000000000000000000000000000").next () (.enqueue job p) r () := h.keys.answer hhex hjobs
        refine ⟨g, ⟨⟨hanswer, trivial⟩, hnext, rfl⟩, ?_⟩
        rcases hcase with ⟨rfl, hs⟩ | ⟨hsent, rfl⟩
        · have hun : Untouched t j s.jobs s.jobs := .refl
          rw [hs]
          exact h.aside hi hun h.keys not_ended rfl rfl rfl
        · exact h.sends hi (by_enqueue hby) hp hsent hkeys rfl
    | _ => exact (hphase hp).elim

/-- No step leaves the job without a delivery to come, or runs into the second limit. -/
theorem driverRules (hj : isUuidHex j = true) : Rules (driverWatch q t j) (fun w a => Reachable w a ∧ KeepsKeys t j w a)
    (fun s tr Γ => DriverInv t j s tr Γ) where
  start {w Γ i c} hw h hΓ hadm hP := by
    refine h.starts hΓ fun tag m hc => ?_
    subst hc
    refine ⟨of_decide_eq_true hadm, fun i' m' g' hi' => ?_⟩
    obtain ⟨p, hp⟩ := hw.thread hi'
    exact hP.1.2 i' _ p m' hp rfl
  op {w Γ i ch c g e r s} _ h hi hthread hmay hex hP := by
    obtain ⟨k, hk⟩ := hthread
    have hok : DriverOp.answered e r := by
      cases e with
      | job o => exact hP.1.1 c o k r s hk hex
      | _ => trivial
    cases c with
    | submit t' u x => exact h.submits hj hi hmay hex hok
    | run tag m => exact h.delivers hj hi hmay hex hok
  ended {s tr Γ i c g r} h hi hlast := by
    refine h.leaves rfl rfl fun i' tag m r' heq hjob => ?_
    cases heq
    exact (hlast tag m rfl hjob).1
  kill {w Γ i c g} _ h _ _ _ := h.leaves rfl rfl fun _ _ _ _ heq => by cases heq
  env {w Γ b s} _ h hs hP := by
    cases b with
    | wait ms =>
      cases hs
      exact h.passes hP.2
    | redeliver tag =>
      have hs : (if q.kind = .celery then (w.state.copies tag).map w.state.put else none) = some s := hs
      split at hs
      · obtain ⟨m, hm, rfl⟩ := Option.map_eq_some_iff.mp hs
        exact h.redelivers hm
      · cases hs

theorem driverInv_empty : DriverInv t j ({} : Backend) ([] : List q.system.Event) fun _ => none where
  keys := KeyInv.empty
  arrivals := ⟨fun _ _ h => (nomatch h), fun _ _ _ h => (nomatch h), fun _ _ _ _ _ _ h => (nomatch h), fun _ _ _ h => (nomatch h),
    fun _ _ _ _ h => (nomatch h)⟩
  copies := ⟨fun _ _ h => (nomatch h), fun _ _ => rfl, fun _ _ _ _ h => (nomatch h), fun _ _ _ _ _ _ _ h => (nomatch h),
    fun _ _ _ _ h => (nomatch h), fun _ _ _ _ h => (nomatch h)⟩
  counts := ⟨0, rfl, le_rfl, fun _ _ h => (nomatch h), fun _ _ _ _ h => (nomatch h)⟩
  recorded := fun _ h => nomatch h
  debt := fun h => nomatch h
  ended := fun _ _ _ _ h => nomatch h

/-- A retry that is not owed was run. -/
theorem begun_of_not_owed {v : q.system.Event} {older : List q.system.Event} (ha : asksAgain t j v = true) :
    ∀ newer, owed t j (newer ++ v :: older) = false → ∃ v' ∈ newer, begins t j v' = true
  | [], h => by
    have hb : begins t j v = false := by
      unfold asksAgain at ha
      split at ha
      · rfl
      · cases ha
    simp [owed, ha, hb] at h
  | u :: newer, h => by
    cases hu : begins t j u with
    | true => exact ⟨u, List.mem_cons_self, hu⟩
    | false =>
      have h : owed t j (newer ++ v :: older) = false := by
        simp only [List.cons_append, owed, hu, Bool.not_false, Bool.true_and, Bool.or_eq_false_iff] at h
        exact h.2
      obtain ⟨v', hv', hb⟩ := begun_of_not_owed ha newer h
      exact ⟨v', List.mem_cons_of_mem _ hv', hb⟩

/-- As long as Redis keeps the job's keys, every retry that is asked for is run, until the job has ended. -/
theorem requested_retries_run (hj : isUuidHex j = true) {w : q.system.World}
    (hw : World.Reaches (fun w a => Reachable w a ∧ KeepsKeys t j w a) (noDriver q) w) : AlwaysRetried t j w := by
  obtain ⟨Γ, hΓ, h⟩ := (driverRules hj).reaches driverWatch_sound hw ⟨fun _ => none, fun _ => rfl, driverInv_empty⟩
  have hnone : Stopped t j w → ∀ P, ¬Pending t j w.state Γ P := fun hstop P ⟨tag, m, hm, hjob, _⟩ => hstop.copies tag m hm hjob
  refine ⟨fun i tag m r => h.ended i tag m r, fun hstop newer v older htrace ha => ?_, fun hstop ⟨p, hp⟩ => ?_⟩
  · have hnot : owed t j (newer ++ v :: older) = false :=
      Bool.eq_false_iff.mpr fun howed => hnone hstop _ (h.debt (htrace ▸ howed))
    exact begun_of_not_owed ha newer hnot
  · obtain ⟨job, hrec, hend | hpend⟩ := h.recorded p hp
    · exact ⟨job, hrec, hend⟩
    · exact absurd hpend (hnone hstop _)

end Run

/-! ### A record that expires -/

section Unused
variable {w : q.system.World}

/-- No tag from `next` on has been given out. -/
def Unused (s : Backend) : Prop := ∀ tag, s.next ≤ tag → s.copies tag = none

theorem Unused.put {s : Backend} (h : Unused s) (m : Message) : Unused (s.put m) := fun tag htag => by
  have htag : s.next + 1 ≤ tag := htag
  exact (Function.update_of_ne (by omega) _ _).trans (h tag (by omega))

theorem Unused.exec {s s' : Backend} (h : Unused s) {e : DriverOp} {ch : Choice} {r : Except Exn e.Reply}
    (hex : driverExec e ch s = some (r, s')) : Unused s' := by
  cases e with
  | job o =>
    by_cases ho : ∀ job p, o ≠ .enqueue job p
    · obtain ⟨jobs, -, rfl⟩ := driverExec_job ho hex
      exact h
    · obtain ⟨job, p, rfl⟩ : ∃ job p, o = .enqueue job p := by
        simpa only [not_forall, not_not] using ho
      obtain ⟨jobs, -, ⟨-, rfl⟩ | ⟨-, rfl⟩⟩ := driverExec_enqueue hex
      · exact h
      · exact Unused.put (s := { s with jobs }) h _
  | publish m countdown =>
    cases hex
    exact h.put m
  | settle tag' =>
    cases hex
    intro tag htag
    by_cases hne : tag = tag'
    · subst hne
      exact Function.update_self _ _ _
    · exact (Function.update_of_ne hne _ _).trans (h tag htag)
  | sleep seconds =>
    cases hex
    exact h

theorem unused_of_reaches {P : q.system.World → q.system.Act → Prop} (hw : World.Reaches P (noDriver q) w) : Unused w.state := by
  refine hw.invariant (I := fun w => Unused w.state) (fun w a w' h _ hs => ?_) fun _ _ => rfl
  have hpark : ∀ (w : q.system.World) (i : Nat) (c : DriverCall) (p : DriverProgram Outcome), Unused w.state →
      Unused (w.park i c p).state := fun w i c p => by cases p <;> exact id
  rcases World.step_cases hs with ⟨i, c, rfl, -, -, rfl⟩ | ⟨i, choice, c, e, k, r, s, rfl, -, hex, rfl⟩ |
    ⟨i, t, busy, rfl, -, -, rfl⟩ | ⟨b, s, rfl, hb, rfl⟩
  · exact hpark _ i c _ h
  · exact hpark _ i c _ (h.exec hex)
  · exact h
  · cases b with
    | wait ms =>
      cases hb
      exact h
    | redeliver tag' =>
      have hb : (if q.kind = .celery then (w.state.copies tag').map w.state.put else none) = some s := hb
      split at hb
      · obtain ⟨m, -, rfl⟩ := Option.map_eq_some_iff.mp hb
        exact h.put m
      · cases hb

end Unused

namespace Outlived
open Redelivery (payload job upload record)

/-- Records are kept for a second. -/
def brief : Driver where
  kind := .celery
  service := { Redelivery.service with jobs := ⟨1⟩ }
  backoff := 2
  attempts_pos := by decide
  retention_pos := by decide

def message : Message := { tenantId := "acme", jobId := job, payloadId := payload }

def acts (i : Nat) (choices : List Choice) : List brief.system.Act := choices.map fun choice => .op i choice

/-- An upload, and a first delivery whose disk is full. -/
def first : List brief.system.Act :=
  .start 0 (.submit "acme" upload none) :: acts 0 [.id payload, .ok, .id job, .time 0, .time 0, .ok, .ok, .ok, .ok] ++
  .start 1 (.run 0 message) :: acts 1 [.ok, .ok, .time 0, .ok, .ok, .ok, .seconds 0, .raises (.other "OSError" "no space left"),
    .time 0, .ok, .ok, .ok, .ok, .ok]

def again : Message := { message with retries := 1 }

/-- The second delivery comes after two seconds, and finds nothing. -/
def outlived : List brief.system.Act := first ++ .env (.wait 2000) :: .start 2 (.run 1 again) :: acts 2 [.ok, .ok]

/-- The second delivery comes at once. -/
def retried : List brief.system.Act :=
  first ++ .start 2 (.run 1 again) :: acts 2 [.ok, .ok, .time 0, .ok, .ok, .ok, .seconds 0, .ingested record, .ok, .time 0, .ok, .ok,
    .ok, .seconds 1, .ok, .ok]

/-- On the first three threads, the store answers, and no copy is delivered to two of them. -/
def orderly (w : brief.system.World) : brief.system.Act → Bool
  | .op i ch => match w.threads i with
    | some ⟨_, .op (.job e) _⟩ => match driverExec (.job e) ch w.state with
      | some (r, _) => Op.isIngest e || succeeded r
      | none => true
    | _ => true
  | .start _ (.run tag _) => (List.range 3).all fun i => match w.threads i with
    | some ⟨.run tag' _, _⟩ => tag' != tag
    | _ => true
  | _ => true

/-- No time passes. -/
def patient : brief.system.Act → Bool
  | .env (.wait _) => false
  | _ => true

theorem reachable_of_orderly (w : brief.system.World) (a : brief.system.Act) (h0 : ∀ i, 3 ≤ i → w.threads i = none)
    (h : orderly w a = true) : Reachable w a := by
  cases a with
  | op i ch =>
    refine ⟨fun c e k r s ht hex hi => ?_, trivial⟩
    simp only [orderly, ht, hex, hi, Bool.false_or] at h
    exact h
  | start i c =>
    refine ⟨trivial, ?_⟩
    cases c with
    | submit t u r => trivial
    | run tag m =>
      intro i' c p m' ht hc
      subst hc
      have hlt : i' < 3 := by
        by_contra hle
        rw [h0 i' (not_lt.mp hle)] at ht
        cases ht
      have := List.all_eq_true.mp h i' (List.mem_range.mpr hlt)
      rw [ht] at this
      simp at this
  | kill i => exact ⟨trivial, trivial⟩
  | env b => exact ⟨trivial, trivial⟩

/-- A patient run keeps every key. -/
def kept (w : brief.system.World) (a : brief.system.Act) : Bool := patient a && orderly w a

theorem keepsKeys_of_patient {w : brief.system.World} {a : brief.system.Act} (h : patient a = true) : KeepsKeys "acme" job w a := by
  match a, h with
  | .env (.redeliver _), _ | .start _ _, _ | .op _ _, _ | .kill _, _ => trivial

/-- The record of the job has expired with its message sent, and no copy and no thread is left. -/
def ranOut (w : brief.system.World) : Bool :=
  w.state.jobs.messages.contains ("acme", job, payload) && (w.state.jobs.record? "acme" job).isNone && w.state.next == 2 &&
    (w.state.copies 0).isNone && (w.state.copies 1).isNone && (List.range 3).all fun i => (w.threads i).isNone

theorem outlived_ranOut : ((noDriver brief).runIf orderly outlived).any ranOut = true := by decide +kernel

/-- The retry has been counted. -/
def counted : brief.system.Event → Bool := asksAgain "acme" job

theorem retried_done : ((noDriver brief).runIf kept retried).any (fun w =>
    w.trace.any counted && (w.state.jobs.record? "acme" job).any fun job => job.status == .done) = true := by decide +kernel

theorem threads_of_run {as : List brief.system.Act} (h : (as.all fun a => a.thread.all (· < 3)) = true) :
    ∀ a ∈ as, ∀ i, a.thread = some i → i < 3 := by
  intro a ha i hi
  have := List.all_eq_true.mp h a ha
  rw [hi] at this
  exact of_decide_eq_true this

/-- Nothing more comes of a job whose record expired before its retry was delivered. -/
theorem not_alwaysRetried : ¬∀ w, World.Reaches Reachable (noDriver brief) w → AlwaysRetried "acme" job w := by
  intro h
  obtain ⟨w, hw, hfacts⟩ := (Option.any_eq_true _ _).mp outlived_ranOut
  obtain ⟨hreach, hthreads⟩ := World.reaches_of_runIf_below (fun w a _ => reachable_of_orderly w a) (threads_of_run (by decide)) (fun _ _ => rfl) hw
  simp only [ranOut, Bool.and_eq_true, List.contains_iff_mem, Option.isNone_iff_eq_none, beq_iff_eq, List.all_eq_true, List.mem_range]
    at hfacts
  obtain ⟨⟨⟨⟨⟨hsent, hgone⟩, hnext⟩, hzero⟩, hone⟩, hidle⟩ := hfacts
  have hnone : ∀ tag, w.state.copies tag = none := by
    intro tag
    by_cases htag : w.state.next ≤ tag
    · exact unused_of_reaches hreach tag htag
    · obtain rfl | rfl : tag = 0 ∨ tag = 1 := by omega
      · exact hzero
      · exact hone
  have hstop : Stopped "acme" job w := by
    refine ⟨fun tag m hm => ?_, fun i c p tag m ht => ?_⟩
    · rw [hnone] at hm
      cases hm
    · have hnot : w.threads i = none := (lt_or_ge i 3).elim (hidle i) (hthreads i)
      rw [hnot] at ht
      cases ht
  obtain ⟨record, hrec, -⟩ := (h w hreach).finished hstop ⟨payload, hsent⟩
  rw [hgone] at hrec
  cases hrec

/-- A retry that is delivered in time. -/
theorem retried_in_time : ∃ w, World.Reaches (fun w a => Reachable w a ∧ KeepsKeys "acme" job w a) (noDriver brief) w ∧
    (∃ v ∈ w.trace, asksAgain "acme" job v = true) ∧ AlwaysRetried "acme" job w := by
  obtain ⟨w, hw, hfacts⟩ := (Option.any_eq_true _ _).mp retried_done
  have hreach := (World.reaches_of_runIf_below (P := fun w a => Reachable w a ∧ KeepsKeys "acme" job w a) (fun w a _ h0 h => by
    obtain ⟨hpatient, horderly⟩ := Bool.and_eq_true_iff.mp h
    exact ⟨reachable_of_orderly w a h0 horderly, keepsKeys_of_patient hpatient⟩) (threads_of_run (by decide)) (fun _ _ => rfl) hw).1
  obtain ⟨v, hv, hasks⟩ := List.any_eq_true.mp (Bool.and_eq_true_iff.mp hfacts).1
  exact ⟨w, hreach, ⟨v, hv, hasks⟩, requested_retries_run (by decide) hreach⟩

end Outlived
end NexusGate.Workers
