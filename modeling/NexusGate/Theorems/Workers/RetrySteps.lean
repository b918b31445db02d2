import NexusGate.Theorems.Workers.RetryInv

/-! # The deliveries of a job keep its counters

One operation of `execute`, in a delivery of the job or of another one. -/

namespace NexusGate.Workers
open Async Async.System Redis Rag

variable {q : Driver} {t j : String}

section Steps
variable {s s' : Backend} {jobs : State} {tr : List q.system.Event} {Γ : DriverBoard} {i tag : Nat} {c : DriverCall} {m : Message}
  {g g' : (Unit × Unit) × Phase × Leg} {n n' : Int} {v : q.system.Event} {e : Op} {r : Except Exn e.Reply} {ch : Choice}

theorem not_ended {e : DriverOp} {r : Except Exn e.Reply} :
    ∀ i' tag m r', (.did i c e r : q.system.Event) ≠ .ended i' (.run tag m) r' :=
  fun _ _ _ _ h => by cases h

theorem owed_aside (hb : begins t j v = false) (ha : asksAgain t j v = false) : owed t j (v :: tr) = owed t j tr := by
  simp [owed, hb, ha]

theorem begins_aside (he : e ≠ .redis (.get (jobKey t j))) : begins t j (.did i c (.job e) r : q.system.Event) = false := by
  cases c with
  | submit t' u x => rfl
  | run tag m =>
    cases e with
    | redis c =>
      cases c with
      | get k =>
        refine Bool.and_eq_false_iff.mpr (Or.inr (beq_eq_false_iff_ne.mpr ?_))
        rintro rfl
        exact he rfl
      | _ => rfl
    | _ => rfl

theorem asksAgain_aside (he : e.counts "retried" = false) : asksAgain t j (.did i c (.job e) r : q.system.Event) = false := by
  cases c with
  | submit t' u x => rfl
  | run tag m =>
    cases e with
    | redis c =>
      cases c with
      | hincrby k f n =>
        have he : (k == statsKey && f == "retried") = false := he
        show (m.job == (t, j) && k == statsKey && f == "retried") = false
        rw [Bool.and_assoc, he, Bool.and_false]
      | _ => rfl
    | _ => rfl

theorem multi_ne_redis {cs : List (Cmd Blob)} {c : Cmd Blob} : Op.multi cs ≠ .redis c := nofun

theorem owed_multi {cs : List (Cmd Blob)} {r : Except Exn (Op.Reply (.multi cs))} :
    owed t j (.did i c (.job (.multi cs)) r :: tr) = owed t j tr :=
  owed_aside (begins_aside (e := .multi cs) multi_ne_redis) (asksAgain_aside (e := .multi cs) rfl)

/-- What a delivery of another job does is no event of this one. -/
theorem events_other (hm : m.job ≠ (t, j)) {e : DriverOp} {r : Except Exn e.Reply} :
    begins t j (.did i (.run tag m) e r : q.system.Event) = false ∧ asksAgain t j (.did i (.run tag m) e r : q.system.Event) = false := by
  have hne : (m.job == (t, j)) = false := beq_eq_false_iff_ne.mpr hm
  constructor
  · unfold begins
    split
    · rename_i heq
      cases heq
      rw [hne, Bool.false_and]
    · rfl
  · unfold asksAgain
    split
    · rename_i heq
      cases heq
      rw [hne, Bool.false_and, Bool.false_and]
    · rfl

theorem Leg.Bound.mono {g : Leg} (h : g.Bound n) (hn : n ≤ n') : g.Bound n' := by
  cases g with
  | ready k => exact le_trans (α := Int) h hn
  | begun k => exact le_trans (α := Int) h hn
  | working k a => exact ⟨h.1, h.2.trans hn⟩
  | raised k a => exact ⟨h.1, h.2.trans hn⟩
  | closed => trivial

/-- No upload comes further. -/
theorem Arrivals.step (h : Arrivals t j s.jobs Γ) (hi : Γ i = some (c, g)) (hdrawn : jobs.drawn = s.jobs.drawn)
    (hmessages : jobs.messages = s.jobs.messages)
    (hrecord : (∃ job, s.jobs.record? t j = some job) → ∃ job, jobs.record? t j = some job) (hg : g'.2.1 = g.2.1) :
    Arrivals t j jobs (Function.update Γ i (some (c, g'))) := by
  have hphase : ∀ {i' c' x}, Function.update Γ i (some (c, g')) i' = some (c', x) → ∃ y, Γ i' = some (c', y) ∧ x.2.1 = y.2.1 := by
    intro i' c' x hx
    obtain ⟨y, hy, ⟨-, -, rfl, rfl⟩ | ⟨-, rfl⟩⟩ := went_on hi hx
    · exact ⟨y, hy, hg⟩
    · exact ⟨x, hy, rfl⟩
  refine ⟨fun t' p hm => ?_, fun i' c' x hx ho => ?_, fun i₁ i₂ c₁ c₂ x y hx hy ho ho' => ?_, fun i' c' x hx hp => ?_,
    fun i' u r x hx hp => ?_⟩
  · rw [hdrawn]
    exact h.drawn t' p (hmessages ▸ hm)
  · obtain ⟨y, hy, hxy⟩ := hphase hx
    rw [hdrawn]
    exact h.owner i' c' y hy (hxy ▸ ho)
  · obtain ⟨x', hx', hxx⟩ := hphase hx
    obtain ⟨y', hy', hyy⟩ := hphase hy
    exact h.single i₁ i₂ c₁ c₂ x' y' hx' hy' (hxx ▸ ho) (hyy ▸ ho')
  · obtain ⟨y, hy, hxy⟩ := hphase hx
    rw [hmessages]
    exact h.unsent i' c' y hy (hxy ▸ hp)
  · obtain ⟨y, hy, hxy⟩ := hphase hx
    exact hrecord (h.saved i' u r y hy (hxy ▸ hp))

theorem Counts.step (h : Counts t j s Γ n) (hi : Γ i = some (c, g))
    (hcounter : int? s'.jobs.now s'.jobs.store (attemptsKey t j) = some n') (hn : n ≤ n')
    (hcopies : ∀ tag m, s'.copies tag = some m → m.job = (t, j) → s.copies tag = some m ∨ (m.retries : Int) ≤ n')
    (hleg : ∀ tag m, c = .run tag m → m.job = (t, j) → g'.2.2.Bound n') :
    Counts t j s' (Function.update Γ i (some (c, g'))) n' where
  counter := hcounter
  nonneg := h.nonneg.trans hn
  copies tag m hm hjob := by
    rcases hcopies tag m hm hjob with hm | hle
    · exact (h.copies tag m hm hjob).trans hn
    · exact hle
  legs i' tag m x hx hjob := by
    obtain ⟨y, hy, ⟨-, hc, -, rfl⟩ | ⟨-, rfl⟩⟩ := went_on hi hx
    · exact hleg tag m hc.symm hjob
    · exact (h.legs i' tag m x hy hjob).mono hn

/-- An operation of the service that sends nothing. -/
theorem DriverInv.work (h : DriverInv t j s tr Γ) (hi : Γ i = some (c, g)) (hrest : SameRest s.jobs jobs)
    (hkeys : KeyInv (fun _ => True) jobs (calls Γ)) (hv : ∀ i tag m r, v ≠ .ended i (.run tag m) r) (hphase : g'.2.1 = g.2.1)
    (hover : g'.2.2 ≠ .closed → g.2.2 ≠ .closed) (hrecord : (∃ job, s.jobs.record? t j = some job) → ∃ job, jobs.record? t j = some job)
    (hcounts : ∀ n, Counts t j s Γ n → ∃ n', int? jobs.now jobs.store (attemptsKey t j) = some n' ∧ n ≤ n' ∧
      ∀ tag m, c = .run tag m → m.job = (t, j) → g'.2.2.Bound n')
    (hrecorded : Recorded t j { s with jobs } (Function.update Γ i (some (c, g'))))
    (howed : owed t j (v :: tr) = true → Pending t j { s with jobs } (Function.update Γ i (some (c, g'))) Leg.waits) :
    DriverInv t j { s with jobs } (v :: tr) (Function.update Γ i (some (c, g'))) where
  keys := by rw [calls_same hi]; exact hkeys
  arrivals := h.arrivals.step hi hrest.drawn hrest.messages hrecord hphase
  copies := h.copies.step { s with jobs } hi rfl rfl
    (fun x hx => by rw [show jobs.messages = _ from hrest.messages]; exact hx) hover
  counts := by
    obtain ⟨n, hn⟩ := h.counts
    obtain ⟨n', hcounter, hle, hleg⟩ := hcounts n hn
    exact ⟨n', hn.step hi hcounter hle (fun tag m hm _ => Or.inl hm) hleg⟩
  recorded := hrecorded
  debt := howed
  ended i' tag m r hmem hjob := by
    rcases List.mem_cons.mp hmem with heq | hmem
    · exact absurd heq.symm (hv i' tag m r)
    · exact h.ended i' tag m r hmem hjob

/-- The record is as it was. -/
theorem Recorded.step (h : Recorded t j s Γ) (hi : Γ i = some (c, g)) (hmessages : jobs.messages = s.jobs.messages)
    (hrecord : jobs.record? t j = s.jobs.record? t j) (hover : g.2.2 ≠ .closed → g'.2.2 ≠ .closed) :
    Recorded t j { s with jobs } (Function.update Γ i (some (c, g'))) := by
  intro p hp
  obtain ⟨job, hrec, hend⟩ := h p (hmessages ▸ hp)
  refine ⟨job, hrecord.trans hrec, hend.imp_right fun hpend => ?_⟩
  exact hpend.step { s with jobs } hi (fun _ _ hm _ _ => hm) hover

/-- A step that writes neither key of the job. -/
theorem DriverInv.untouched (h : DriverInv t j s tr Γ) (hi : Γ i = some (c, g)) (hun : Untouched t j s.jobs jobs)
    (hkeys : KeyInv (fun _ => True) jobs (calls Γ)) (hv : ∀ i tag m r, v ≠ .ended i (.run tag m) r) (hphase : g'.2.1 = g.2.1)
    (hover : g'.2.2 = .closed ↔ g.2.2 = .closed) (hbound : ∀ n, g.2.2.Bound n → g'.2.2.Bound n)
    (howed : owed t j (v :: tr) = true → Pending t j { s with jobs } (Function.update Γ i (some (c, g'))) Leg.waits) :
    DriverInv t j { s with jobs } (v :: tr) (Function.update Γ i (some (c, g'))) := by
  refine h.work hi hun.toSameRest hkeys hv hphase (mt hover.mpr) (fun hrec => by rw [hun.record?]; exact hrec) (fun n hn => ?_)
    (h.recorded.step hi hun.messages hun.record? (mt hover.mp)) howed
  refine ⟨n, hun.int?.trans hn.counter, le_rfl, fun tag m hc hjob => ?_⟩
  subst hc
  exact hbound n (hn.legs i tag m g hi hjob)

/-- The same, when it is no event of the job either. -/
theorem DriverInv.aside (h : DriverInv t j s tr Γ) (hi : Γ i = some (c, g)) (hun : Untouched t j s.jobs jobs)
    (hkeys : KeyInv (fun _ => True) jobs (calls Γ)) (hv : ∀ i tag m r, v ≠ .ended i (.run tag m) r) (hb : begins t j v = false)
    (ha : asksAgain t j v = false) (hg : g'.2 = g.2) :
    DriverInv t j { s with jobs } (v :: tr) (Function.update Γ i (some (c, g'))) := by
  refine h.untouched hi hun hkeys hv (by rw [hg]) (by rw [hg]) (fun n hn => by rw [hg]; exact hn) fun howed => ?_
  rw [owed_aside hb ha] at howed
  exact (h.debt howed).step { s with jobs } hi (fun _ _ hm _ _ => hm) (by rw [hg]; exact id)

/-- The attempt is counted. -/
theorem counted_attempt {s s' : State} {k : String} {ttl : Nat} (hn : int? s.now s.store k = some n) (httl : 0 < ttl)
    {r : Except Exn (Op.Reply (.multi [.incr k, .expire k ttl]))}
    (hex : exec (.multi [.incr k, .expire k ttl]) ch s = some (r, s')) (hok : succeeded r = true) :
    Op.number _ r = some (n + 1) ∧ int? s'.now s'.store k = some (n + 1) := by
  obtain ⟨hreply, hvalue⟩ := exec_incr_int hn
  cases ch with
  | ok =>
    simp only [exec, Option.some.injEq, Prod.mk.injEq] at hex
    obtain ⟨rfl, rfl⟩ := hex
    rw [execAll_cons_fst, hreply] at hok ⊢
    split at hok
    · cases hok
    · rename_i hfailed
      rw [if_neg hfailed]
      refine ⟨rfl, ?_⟩
      have hkept : value? s.now (Redis.execAll s.now [.incr k, .expire k ttl] s.store).2 k = some (.str (Payload.ofInt (n + 1))) :=
        (exec_expire_keeps httl).trans hvalue
      simp only [int?, hkept]
      rfl
  | lost applied =>
    simp only [exec, Option.some.injEq, Prod.mk.injEq] at hex
    obtain ⟨rfl, -⟩ := hex
    cases hok
  | _ => cases hex

theorem work_untouched (hj : isUuidHex j = true) {t' : String} (he : e.Work) (hby : e.By q.service t')
    (hown : (ownMonitor q tag m).may () (.job e)) (hex : exec e ch s.jobs = some (r, jobs)) : Untouched t j s.jobs jobs := by
  obtain ⟨⟨hq, -⟩ | ⟨job, n, rfl, -⟩, -⟩ := hown
  · exact untouched_quiet hj hby hq he.attempts hex
  · exact absurd he.saves (by nofun)

section Own
variable (hj : isUuidHex m.jobId = true) (h : DriverInv m.tenantId m.jobId s tr Γ) (hi : Γ i = some (.run tag m, g))
  (hkeys : KeyInv (fun _ => True) jobs (calls Γ))
include hj h hi hkeys

/-- The record that a delivery of the job finds. -/
theorem DriverInv.reads {k : Nat} {r : Except Exn (Op.Reply (.redis (.get (jobKey m.tenantId m.jobId))))} (hleg : g.2.2 = .ready k)
    (hex : exec (.redis (.get (jobKey m.tenantId m.jobId))) ch s.jobs = some (r, jobs)) (hok : succeeded r = true) :
    (∃ job, Op.loaded (.redis (.get (jobKey m.tenantId m.jobId))) r = some job ∧ (job.tenantId, job.jobId) = m.job) ∧
      DriverInv m.tenantId m.jobId { s with jobs } (.did i (.run tag m) (.job (.redis (.get (jobKey m.tenantId m.jobId)))) r :: tr)
        (Function.update Γ i (some (.run tag m, g.1, g.2.1, .begun k))) := by
  have hcopy : s.copies tag = some m := h.copies.held i tag m g hi rfl (by rw [hleg]; nofun)
  obtain ⟨job, hrec, -⟩ := h.recorded m.payloadId (h.copies.sent tag m hcopy)
  obtain ⟨hl, hjobs⟩ := get_of_record hrec hex hok
  have hun : Untouched m.tenantId m.jobId s.jobs jobs := hjobs ▸ .refl
  have hmine : (job.tenantId, job.jobId) = m.job := by
    unfold State.record? at hrec
    split at hrec
    · rename_i job' hv
      cases hrec
      obtain ⟨x, hx, hxv⟩ := lookup_of_value? hv
      obtain ⟨job', hv', ht, hjob⟩ := h.keys.keyed.own hj hx
      rw [hxv] at hv'
      cases hv'
      exact Prod.ext ht hjob
    · cases hrec
  have hbegins : begins m.tenantId m.jobId
      (.did i (.run tag m) (.job (.redis (.get (jobKey m.tenantId m.jobId)))) r : q.system.Event) = true := by
    simp [begins, Message.job]
  refine ⟨⟨job, hl, hmine⟩, h.untouched hi hun hkeys not_ended rfl ?_ (fun n hn => ?_) fun howed => ?_⟩
  · rw [hleg]
    exact ⟨nofun, nofun⟩
  · rw [hleg] at hn
    exact hn
  · simp [owed, hbegins] at howed

/-- Its attempt is counted. -/
theorem DriverInv.attempts {k : Nat}
    {r : Except Exn (Op.Reply (.multi [.incr (attemptsKey m.tenantId m.jobId),
      .expire (attemptsKey m.tenantId m.jobId) q.service.jobs.retention]))} (hleg : g.2.2 = .begun k)
    (hex : exec (.multi [.incr (attemptsKey m.tenantId m.jobId),
      .expire (attemptsKey m.tenantId m.jobId) q.service.jobs.retention]) ch s.jobs = some (r, jobs)) (hok : succeeded r = true) :
    ∃ a : Int, Op.number _ r = some a ∧ (k : Int) + 1 ≤ a ∧
      DriverInv m.tenantId m.jobId { s with jobs } (.did i (.run tag m) (.job (.multi [.incr (attemptsKey m.tenantId m.jobId),
        .expire (attemptsKey m.tenantId m.jobId) q.service.jobs.retention])) r :: tr)
        (Function.update Γ i (some (.run tag m, g.1, g.2.1, .working k a))) := by
  obtain ⟨n, hn⟩ := h.counts
  obtain ⟨hnumber, hcounter⟩ := counted_attempt hn.counter q.retention_pos hex hok
  have hk : (k : Int) ≤ n := by
    have := hn.legs i tag m g hi rfl
    rw [hleg] at this
    exact this
  obtain ⟨hrest, hframe⟩ := exec_quiet plain_attempt.quiet hex
  have hrecord : jobs.record? m.tenantId m.jobId = s.jobs.record? m.tenantId m.jobId := by
    rw [State.record?, State.record?, hrest.now, value?_congr (hframe _ _ hj)]
  have hworking : ∀ a : Int, Leg.working k a ≠ .closed := fun _ h => by cases h
  refine ⟨n + 1, hnumber, by omega, h.work hi hrest hkeys not_ended rfl (fun _ h => by rw [hleg] at h; cases h)
    (fun hrec => by rw [hrecord]; exact hrec) (fun n' hn' => ?_)
    (h.recorded.step hi hrest.messages hrecord fun _ => hworking _) fun howed => ?_⟩
  · obtain rfl : n = n' := Option.some.inj (hn.counter.symm.trans hn'.counter)
    exact ⟨n + 1, hcounter, by omega, fun _ _ _ _ => ⟨by omega, le_rfl⟩⟩
  · rw [owed_multi] at howed
    refine (h.debt howed).step { s with jobs } hi (fun _ _ hm _ _ => hm) fun hw => ?_
    rw [hleg] at hw
    exact hw.elim

/-- It stores the record. -/
theorem DriverInv.saves {k : Nat} {a : Int} {job : IngestJob} {x : Int}
    {r : Except Exn (Op.Reply (.multi (q.service.jobs.saveCmds job x)))} (hleg : g.2.2 = .working k a)
    (hby : Op.By q.service m.tenantId (.multi (q.service.jobs.saveCmds job x))) (hmine : (job.tenantId, job.jobId) = m.job)
    (hex : exec (.multi (q.service.jobs.saveCmds job x)) ch s.jobs = some (r, jobs)) (hok : succeeded r = true) :
    DriverInv m.tenantId m.jobId { s with jobs } (.did i (.run tag m) (.job (.multi (q.service.jobs.saveCmds job x))) r :: tr)
      (Function.update Γ i (some (.run tag m, g.1, g.2.1, Leg.saved k a job))) := by
  obtain ⟨ht, hjob⟩ : job.tenantId = m.tenantId ∧ job.jobId = m.jobId := Prod.mk.inj hmine
  have hcopy : s.copies tag = some m := h.copies.held i tag m g hi rfl (by rw [hleg]; nofun)
  have hhex : isUuidHex job.jobId = true := by rw [hjob]; exact hj
  obtain ⟨hrest, -, -⟩ := exec_save hhex hex
  have hrec : jobs.record? m.tenantId m.jobId = some job := by
    rw [← ht, ← hjob]
    exact record_of_save q.retention_pos hex hok
  have hcounter : jobs.store.lookup (attemptsKey m.tenantId m.jobId) = s.jobs.store.lookup (attemptsKey m.tenantId m.jobId) :=
    Counter.aside hby rfl hex
  refine h.work hi hrest hkeys not_ended rfl (fun _ => by rw [hleg]; nofun) (fun _ => ⟨job, hrec⟩) (fun n hn => ?_)
    (fun p _ => ⟨job, hrec, ?_⟩) fun howed => ?_
  · refine ⟨n, ?_, le_rfl, fun _ _ _ _ => ?_⟩
    · rw [hrest.now]
      exact (int?_congr (value?_congr hcounter)).trans hn.counter
    · have hbound := hn.legs i tag m g hi rfl
      rw [hleg] at hbound
      show (Leg.saved k a job).Bound n
      unfold Leg.saved
      split
      · trivial
      · split <;> exact hbound
  · cases hend : job.status.terminal with
    | true => exact Or.inl rfl
    | false =>
      refine Or.inr (h.copies.pending hi rfl hcopy ?_)
      show Leg.saved k a job ≠ .closed
      unfold Leg.saved
      rw [hend, if_neg Bool.false_ne_true]
      split <;> nofun
  · rw [owed_multi] at howed
    refine (h.debt howed).step { s with jobs } hi (fun _ _ hm _ _ => hm) fun hw => ?_
    rw [hleg] at hw
    exact hw.elim

/-- It asks to be run again. -/
theorem DriverInv.asks {k : Nat} {a : Int} {r : Except Exn (Op.Reply (.redis (.hincrby statsKey "retried" 1)))}
    (hleg : g.2.2 = .raised k a) (hex : exec (.redis (.hincrby statsKey "retried" 1)) ch s.jobs = some (r, jobs)) :
    DriverInv m.tenantId m.jobId { s with jobs } (.did i (.run tag m) (.job (.redis (.hincrby statsKey "retried" 1))) r :: tr)
      (Function.update Γ i (some (.run tag m, g.1, g.2.1, .raised k a))) := by
  have hcopy : s.copies tag = some m := h.copies.held i tag m g hi rfl (by rw [hleg]; nofun)
  have hq : Op.Quiet (.redis (.hincrby statsKey "retried" 1)) := (plain_count (by decide) (by decide)).quiet
  have hby : Op.By q.service m.tenantId (.redis (.hincrby statsKey "retried" 1)) := .count
  refine h.untouched hi (untouched_quiet hj hby hq rfl hex) hkeys not_ended rfl ?_ (fun n hn => ?_) fun _ => ?_
  · rw [hleg]
  · rw [hleg] at hn
    exact hn
  · exact h.copies.pending hi rfl hcopy trivial

end Own

/-- One operation of `execute`, in a delivery of the job. -/
theorem DriverInv.own (hj : isUuidHex j = true) (h : DriverInv t j s tr Γ) (hi : Γ i = some (.run tag m, g)) (hm : m.job = (t, j))
    (hmay : (legMonitor q.service m).may g.2.2 e) (hown : (ownMonitor q tag m).may () (.job e)) (hby : e.By q.service t)
    (hex : exec e ch s.jobs = some (r, jobs)) (hok : e.isIngest = false → succeeded r = true)
    (hkeys : KeyInv (fun _ => True) jobs (calls Γ)) :
    ∃ leg, (legMonitor q.service m).next g.2.2 e r leg ∧
      DriverInv t j { s with jobs } (.did i (.run tag m) (.job e) r :: tr)
        (Function.update Γ i (some (.run tag m, g.1, g.2.1, leg))) := by
  obtain ⟨rfl, rfl⟩ : m.tenantId = t ∧ m.jobId = j := Prod.mk.inj hm
  have hanswer := answered_of_exec hex hok
  have hwork : e.Work → ∀ leg, leg = g.2.2 → DriverInv m.tenantId m.jobId { s with jobs }
      (.did i (.run tag m) (.job e) r :: tr) (Function.update Γ i (some (.run tag m, g.1, g.2.1, leg))) := by
    rintro he leg rfl
    exact h.aside hi (work_untouched hj he hby hown hex) hkeys not_ended (begins_aside (he.reads _ _)) (asksAgain_aside he.retried) rfl
  cases hleg : g.2.2 with
  | ready k =>
    rw [hleg] at hmay
    obtain rfl : e = .redis (.get (jobKey m.tenantId m.jobId)) := hmay
    obtain ⟨⟨job, hl, hmine⟩, hinv⟩ := h.reads hj hi hkeys hleg hex (hok rfl)
    exact ⟨.begun k, ⟨job, hl, hmine, rfl⟩, hinv⟩
  | begun k =>
    rw [hleg] at hmay
    obtain rfl : e = .multi [.incr (attemptsKey m.tenantId m.jobId),
      .expire (attemptsKey m.tenantId m.jobId) q.service.jobs.retention] := hmay
    obtain ⟨a, hnumber, hle, hinv⟩ := h.attempts hj hi hkeys hleg hex (hok rfl)
    exact ⟨.working k a, ⟨a, hnumber, hle, rfl⟩, hinv⟩
  | working k a =>
    rw [hleg] at hmay
    rcases hmay with he | ⟨job, x, rfl, hmine, -⟩
    · exact ⟨.working k a, ⟨hanswer, by rw [he.saves]⟩, hwork he _ hleg.symm⟩
    · exact ⟨Leg.saved k a job, ⟨hanswer, rfl⟩, h.saves hj hi hkeys hleg hby hmine hex (hok rfl)⟩
  | raised k a =>
    rw [hleg] at hmay
    obtain rfl : e = .redis (.hincrby statsKey "retried" 1) := hmay
    exact ⟨.raised k a, ⟨hanswer, rfl⟩, h.asks hj hi hkeys hleg hex⟩
  | closed =>
    rw [hleg] at hmay
    exact ⟨.closed, ⟨hanswer, rfl⟩, hwork hmay _ hleg.symm⟩

end Steps
end NexusGate.Workers
