import NexusGate.Async.Lives
import NexusGate.Theorems.Workers.RetryWatch

/-! # What holds of a job while it is retried

Two counters bound the attempts at a job: that of its deliveries in Redis, and that of its retries in the message or in
the loop. While Redis keeps the job's keys, a copy of a message never counts more retries than there were deliveries,
so that the second limit is out of reach; and a job that has not ended always has a copy that somebody will run. -/

namespace NexusGate.Workers
open Async Async.System Redis Rag

variable {q : Driver} {t j : String}

/-! ### What is promised -/

/-- The delivery reads the record of the job: `execute` is run. -/
def begins (t j : String) : q.system.Event → Bool
  | .did _ (.run _ m) (.job (.redis (.get k))) _ => m.job == (t, j) && k == jobKey t j
  | _ => false

/-- The delivery has counted the retry that it asks for next. -/
def asksAgain (t j : String) : q.system.Event → Bool
  | .did _ (.run _ m) (.job (.redis (.hincrby k f _))) _ => m.job == (t, j) && k == statsKey && f == "retried"
  | _ => false

/-- Nobody runs the job, and nobody is left to be run. -/
structure Stopped (t j : String) (w : q.system.World) : Prop where
  copies : ∀ tag m, w.state.copies tag = some m → m.job ≠ (t, j)
  running : ∀ i c p tag m, w.threads i = some ⟨c, p⟩ → c = .run tag m → m.job ≠ (t, j)

/-- What is promised of the retries of a job. -/
structure AlwaysRetried (t j : String) (w : q.system.World) : Prop where
  /-- No delivery ends because Celery's retries, or the iterations of the loop, have run out. -/
  ceiling : ∀ i tag m r, .ended i (.run tag m) r ∈ w.trace → m.job = (t, j) → Finished r
  /-- A retry that was asked for is run. -/
  again : Stopped t j w → ∀ newer v older, w.trace = newer ++ v :: older → asksAgain t j v = true →
    ∃ v' ∈ newer, begins t j v' = true
  finished : Stopped t j w → (∃ p, (t, j, p) ∈ w.state.jobs.messages) →
    ∃ job, w.state.jobs.record? t j = some job ∧ job.status.terminal = true

/-! ### The runs -/

/-- No command fails. -/
def StoreAnswers (w : q.system.World) : q.system.Act → Prop
  | .op i ch => ∀ c e k r s, w.threads i = some ⟨c, .op (.job e) k⟩ → driverExec (.job e) ch w.state = some (r, s) →
      e.isIngest = false → succeeded r = true
  | _ => True

/-- A copy of a message is with one worker at a time. -/
def OneWorker (w : q.system.World) : q.system.Act → Prop
  | .start _ (.run tag _) => ∀ i c p m, w.threads i = some ⟨c, p⟩ → c ≠ .run tag m
  | _ => True

/-- Time does not pass until the job's record, or its counter, expires. -/
def KeepsKeys (t j : String) (w : q.system.World) : q.system.Act → Prop
  | .env (.wait ms) => ∀ k ∈ [jobKey t j, attemptsKey t j],
      live? (w.state.jobs.now + ms) w.state.jobs.store k = live? w.state.jobs.now w.state.jobs.store k
  | _ => True

/-- Against a store that can be reached. -/
def Reachable (w : q.system.World) (a : q.system.Act) : Prop := StoreAnswers w a ∧ OneWorker w a

/-- The empty stores, with no call under way. -/
def noDriver (q : Driver) : q.system.World := { state := ({} : Backend) }

/-! ### What holds in between -/

/-- Where the calls of a driver stand. -/
abbrev DriverBoard := Nat → Option (DriverCall × (Unit × Unit) × Phase × Leg)

/-- The board of the calls alone. -/
def calls (Γ : DriverBoard) (i : Nat) : Option (Call × Unit) := (Γ i).map fun x => (x.1.call, ())

/-- A copy of a message about the job that no delivery has yet, or one that has come to where `P` says. -/
def Pending (t j : String) (s : Backend) (Γ : DriverBoard) (P : Leg → Prop) : Prop :=
  ∃ tag m, s.copies tag = some m ∧ m.job = (t, j) ∧ ∀ i m' g, Γ i = some (.run tag m', g) → P g.2.2

/-- A retry was asked for, and has not been run. -/
def owed (t j : String) : List q.system.Event → Bool
  | [] => false
  | v :: tr => !begins t j v && (asksAgain t j v || owed t j tr)

/-- A retry is about to be run. -/
def Leg.waits : Leg → Prop
  | .ready _ | .raised _ _ => True
  | _ => False

/-- The retries before a leg, and its attempt, when `n` attempts were counted. -/
def Leg.Bound (n : Int) : Leg → Prop
  | .ready k | .begun k => (k : Int) ≤ n
  | .working k a | .raised k a => (k : Int) + 1 ≤ a ∧ a ≤ n
  | .closed => True

/-- The uploads, one of which may have the job's id. -/
structure Arrivals (t j : String) (s : State) (Γ : DriverBoard) : Prop where
  drawn : ∀ t' p, (t', j, p) ∈ s.messages → j ∈ s.drawn
  owner : ∀ i c g, Γ i = some (c, g) → g.2.1.owns = some j → j ∈ s.drawn
  single : ∀ i i' c c' g g', Γ i = some (c, g) → Γ i' = some (c', g') → g.2.1.owns = some j → g'.2.1.owns = some j → i = i'
  unsent : ∀ i c g, Γ i = some (c, g) → g.2.1 = .holds j → ∀ t' p, (t', j, p) ∉ s.messages
  saved : ∀ i u r g, Γ i = some (.submit t u r, g) → g.2.1 = .saved j → ∃ job, s.record? t j = some job

/-- The copies, each with a tag of its own, and the deliveries, each of a copy of its own. -/
structure Copies (t j : String) (s : Backend) (Γ : DriverBoard) : Prop where
  sent : ∀ tag m, s.copies tag = some m → (m.tenantId, m.jobId, m.payloadId) ∈ s.jobs.messages
  unused : ∀ tag, s.next ≤ tag → s.copies tag = none
  used : ∀ i tag m g, Γ i = some (.run tag m, g) → tag < s.next
  alone : ∀ i i' tag m m' g g', Γ i = some (.run tag m, g) → Γ i' = some (.run tag m', g') → i = i'
  same : ∀ i tag m g, Γ i = some (.run tag m, g) → ∀ m', s.copies tag = some m' → m' = m
  held : ∀ i tag m g, Γ i = some (.run tag m, g) → m.job = (t, j) → g.2.2 ≠ .closed → s.copies tag = some m

/-- The retries, when `n` attempts were counted. -/
structure Counts (t j : String) (s : Backend) (Γ : DriverBoard) (n : Int) : Prop where
  counter : int? s.jobs.now s.jobs.store (attemptsKey t j) = some n
  nonneg : 0 ≤ n
  copies : ∀ tag m, s.copies tag = some m → m.job = (t, j) → (m.retries : Int) ≤ n
  legs : ∀ i tag m g, Γ i = some (.run tag m, g) → m.job = (t, j) → g.2.2.Bound n

/-- A job whose message was sent has a record, and has ended if no copy is left to be run. -/
def Recorded (t j : String) (s : Backend) (Γ : DriverBoard) : Prop :=
  ∀ p, (t, j, p) ∈ s.jobs.messages → ∃ job, s.jobs.record? t j = some job ∧
    (job.status.terminal = true ∨ Pending t j s Γ (· ≠ .closed))

/-- What holds of a job, its messages and its counters in every state of a run. -/
structure DriverInv (t j : String) (s : Backend) (tr : List q.system.Event) (Γ : DriverBoard) : Prop where
  keys : KeyInv (fun _ => True) s.jobs (calls Γ)
  arrivals : Arrivals t j s.jobs Γ
  copies : Copies t j s Γ
  counts : ∃ n, Counts t j s Γ n
  recorded : Recorded t j s Γ
  debt : owed t j tr = true → Pending t j s Γ Leg.waits
  ended : ∀ i tag m r, .ended i (.run tag m) r ∈ tr → m.job = (t, j) → Finished r

/-! ### The board -/

section Board
variable {s s' : Backend} {Γ : DriverBoard} {i : Nat} {c : DriverCall} {g g' : (Unit × Unit) × Phase × Leg} {P : Leg → Prop} {n : Int}

theorem calls_update {x : Option (DriverCall × (Unit × Unit) × Phase × Leg)} :
    calls (Function.update Γ i x) = Function.update (calls Γ) i (x.map fun x => (x.1.call, ())) := by
  funext i'
  unfold calls
  by_cases hi : i' = i
  · subst hi
    simp only [Function.update_self]
  · simp only [Function.update_of_ne hi]

/-- The call goes on. -/
theorem calls_same (hi : Γ i = some (c, g)) : calls (Function.update Γ i (some (c, g'))) = calls Γ := by
  rw [calls_update]
  refine Function.update_eq_self_iff.mpr ?_
  simp only [calls, hi, Option.map_some]

/-- An entry of a board on which a call went on. -/
theorem went_on {i' : Nat} {c' : DriverCall} {x : (Unit × Unit) × Phase × Leg} (hi : Γ i = some (c, g))
    (h : Function.update Γ i (some (c, g')) i' = some (c', x)) : ∃ y, Γ i' = some (c', y) ∧ (i' = i ∧ c' = c ∧ y = g ∧ x = g' ∨ i' ≠ i ∧ x = y) := by
  rcases board_entry h with ⟨rfl, heq⟩ | ⟨hne, h⟩
  · cases heq
    exact ⟨g, hi, Or.inl ⟨rfl, rfl, rfl, rfl⟩⟩
  · exact ⟨x, h, Or.inr ⟨hne, rfl⟩⟩

theorem Pending.step (h : Pending t j s Γ P) (s' : Backend) (hi : Γ i = some (c, g))
    (hcopies : ∀ tag m, s.copies tag = some m → m.job = (t, j) → (∀ i m' g, Γ i = some (.run tag m', g) → P g.2.2) →
      s'.copies tag = some m) (hP : P g.2.2 → P g'.2.2) : Pending t j s' (Function.update Γ i (some (c, g'))) P := by
  obtain ⟨tag, m, hcopy, hjob, hall⟩ := h
  refine ⟨tag, m, hcopies tag m hcopy hjob hall, hjob, fun i' m' x hx => ?_⟩
  obtain ⟨y, hy, ⟨-, -, rfl, rfl⟩ | ⟨-, rfl⟩⟩ := went_on hi hx
  · exact hP (hall i' m' y hy)
  · exact hall i' m' x hy

/-- The copy of a delivery that is where `P` says. -/
theorem Copies.pending (h : Copies t j s Γ) {tag : Nat} {m : Message} (hi : Γ i = some (.run tag m, g)) (hm : m.job = (t, j))
    (hcopy : s'.copies tag = some m) (hP : P g'.2.2) : Pending t j s' (Function.update Γ i (some (.run tag m, g'))) P := by
  refine ⟨tag, m, hcopy, hm, fun i' m' x hx => ?_⟩
  obtain ⟨y, hy, ⟨-, -, -, rfl⟩ | ⟨hne, -⟩⟩ := went_on hi hx
  · exact hP
  · exact absurd (h.alone _ _ _ _ _ _ _ hy hi) hne

/-- A copy that nobody has had yet. -/
theorem Copies.fresh (h : Copies t j s Γ) {m : Message} (hi : Γ i = some (c, g)) (hm : m.job = (t, j))
    (hcopy : s'.copies s.next = some m) : Pending t j s' (Function.update Γ i (some (c, g'))) P := by
  refine ⟨s.next, m, hcopy, hm, fun i' m' x hx => ?_⟩
  obtain ⟨y, hy, -⟩ := went_on hi hx
  exact absurd (h.used _ _ _ _ hy) (lt_irrefl _)

/-- Nothing happens to the copies. -/
theorem Copies.step (h : Copies t j s Γ) (s' : Backend) (hi : Γ i = some (c, g)) (hcopies : s'.copies = s.copies) (hnext : s'.next = s.next)
    (hsent : ∀ x ∈ s.jobs.messages, x ∈ s'.jobs.messages) (hg : g'.2.2 ≠ .closed → g.2.2 ≠ .closed) :
    Copies t j s' (Function.update Γ i (some (c, g'))) where
  sent tag m hm := hsent _ (h.sent tag m (hcopies ▸ hm))
  unused tag htag := by rw [hcopies]; exact h.unused tag (hnext ▸ htag)
  used i' tag m x hx := by
    obtain ⟨y, hy, -⟩ := went_on hi hx
    exact hnext ▸ h.used i' tag m y hy
  alone i₁ i₂ tag m m' x x' hx hx' := by
    obtain ⟨y, hy, -⟩ := went_on hi hx
    obtain ⟨y', hy', -⟩ := went_on hi hx'
    exact h.alone i₁ i₂ tag m m' y y' hy hy'
  same i' tag m x hx m' hm' := by
    obtain ⟨y, hy, -⟩ := went_on hi hx
    exact h.same i' tag m y hy m' (hcopies ▸ hm')
  held i' tag m x hx hm hover := by
    rw [hcopies]
    obtain ⟨y, hy, ⟨-, -, rfl, rfl⟩ | ⟨-, rfl⟩⟩ := went_on hi hx
    · exact h.held i' tag m y hy hm (hg hover)
    · exact h.held i' tag m x hy hm hover

/-- A copy of a message that was sent. -/
theorem Copies.put (h : Copies t j s Γ) {m : Message} (hm : (m.tenantId, m.jobId, m.payloadId) ∈ s.jobs.messages) :
    Copies t j (s.put m) Γ where
  sent tag m' hm' := by
    rcases board_entry hm' with ⟨-, rfl⟩ | ⟨-, hm'⟩
    · exact hm
    · exact h.sent tag m' hm'
  unused tag htag := by
    have hne : tag ≠ s.next := by
      have : s.next + 1 ≤ tag := htag
      omega
    exact (Function.update_of_ne hne _ _).trans (h.unused tag (Nat.le_of_succ_le htag))
  used i tag m g hi := (h.used i tag m g hi).trans (Nat.lt_succ_self _)
  alone := h.alone
  same i tag m' g hi m'' hm'' := by
    rw [show (s.put m).copies tag = s.copies tag from Function.update_of_ne (h.used i tag m' g hi).ne _ _] at hm''
    exact h.same i tag m' g hi m'' hm''
  held i tag m' g hi hjob hover :=
    (Function.update_of_ne (h.used i tag m' g hi).ne _ _).trans (h.held i tag m' g hi hjob hover)

end Board

/-! ### What an operation leaves -/

section Exec
variable {s s' : State} {ch : Choice}

/-- A save that succeeds is what is read next. -/
theorem record_of_save {jobs : JobStore} {job : IngestJob} {n : Int} (hr : 0 < jobs.retention)
    {r : Except Exn (Op.Reply (.multi (jobs.saveCmds job n)))} (hex : exec (.multi (jobs.saveCmds job n)) ch s = some (r, s'))
    (hok : succeeded r = true) : s'.record? job.tenantId job.jobId = some job := by
  cases ch with
  | ok =>
    simp only [exec, Option.some.injEq, Prod.mk.injEq] at hex
    obtain ⟨-, rfl⟩ := hex
    have hframe : (execAll s.now (jobs.saveCmds job n) s.store).2.lookup (jobKey job.tenantId job.jobId) =
        (Redis.exec s.now (.set (jobKey job.tenantId job.jobId) (.job job) (some jobs.retention) false) s.store).2.lookup
          (jobKey job.tenantId job.jobId) :=
      execAll_cons_frame (by simp [Cmd.writes, jobKey_ne_indexKey])
    have hlive : live? s.now (execAll s.now (jobs.saveCmds job n) s.store).2 (jobKey job.tenantId job.jobId) =
        some ⟨.str (.job job), some (deadline s.now jobs.retention)⟩ := by
      rw [live?_congr hframe, exec_set hr]
      exact live?_insert (by simp [Entry.live, deadline, hr])
    simp only [State.record?, value?, hlive, Option.map_some]
  | lost applied =>
    simp only [exec, Option.some.injEq, Prod.mk.injEq] at hex
    obtain ⟨rfl, -⟩ := hex
    cases hok
  | _ => cases hex

theorem incr_reply {now : Nat} {k : String} {st : Store Blob} :
    (∃ n, (Redis.exec now (.incr k) st).1 = .int n) ∨ (Redis.exec now (.incr k) st).1 = .error := by
  cases hn : int? now st k with
  | some n => exact Or.inl ⟨n + 1, (exec_incr_int hn).1⟩
  | none =>
    refine Or.inr ?_
    unfold int? at hn
    simp only [Redis.exec, Redis.modify]
    split at hn
    · cases hn
    · rename_i b hv
      simp only [hn, Option.map_none]
    · rename_i v hstr hv
      cases v with
      | str b => exact (hstr b rfl).elim
      | _ => rfl

/-- What a store that can be reached answers. -/
theorem answered_of_exec {e : Op} {r : Except Exn e.Reply} (hex : exec e ch s = some (r, s'))
    (hok : e.isIngest = false → succeeded r = true) : Answered e r := by
  refine ⟨hok, ?_⟩
  cases e with
  | redis c =>
    cases c with
    | incr k =>
      have hok := hok rfl
      cases ch with
      | ok =>
        simp only [exec, Option.some.injEq, Prod.mk.injEq] at hex
        obtain ⟨rfl, -⟩ := hex
        rcases @incr_reply s.now k s.store with ⟨n, hn⟩ | herror
        · rw [hn]
          rfl
        · rw [herror] at hok
          cases hok
      | lost applied =>
        simp only [exec, Option.some.injEq, Prod.mk.injEq] at hex
        obtain ⟨rfl, -⟩ := hex
        cases hok
      | _ => cases hex
    | _ => rfl
  | _ => rfl

/-- The record of the job is found. -/
theorem get_of_record {job : IngestJob} (hrec : s.record? t j = some job)
    {r : Except Exn (Op.Reply (.redis (.get (jobKey t j))))} (hex : exec (.redis (.get (jobKey t j))) ch s = some (r, s'))
    (hok : succeeded r = true) : Op.loaded (.redis (.get (jobKey t j))) r = some job ∧ s' = s := by
  cases ch with
  | ok =>
    simp only [exec, Option.some.injEq, Prod.mk.injEq] at hex
    obtain ⟨rfl, rfl⟩ := hex
    unfold State.record? at hrec
    split at hrec
    · rename_i job' hv
      cases hrec
      simp only [Redis.exec, hv]
      exact ⟨rfl, trivial⟩
    · cases hrec
  | lost applied =>
    simp only [exec, Option.some.injEq, Prod.mk.injEq] at hex
    obtain ⟨rfl, -⟩ := hex
    cases hok
  | _ => cases hex

/-- Neither the job's record nor its counter is written. -/
structure Untouched (t j : String) (s s' : State) : Prop extends SameRest s s' where
  record : s'.store.lookup (jobKey t j) = s.store.lookup (jobKey t j)
  counter : s'.store.lookup (attemptsKey t j) = s.store.lookup (attemptsKey t j)

theorem Untouched.refl : Untouched t j s s := ⟨⟨rfl, rfl, rfl⟩, rfl, rfl⟩

theorem Untouched.record? (h : Untouched t j s s') : s'.record? t j = s.record? t j := by
  rw [State.record?, State.record?, h.now, value?_congr h.record]

theorem Untouched.int? (h : Untouched t j s s') :
    int? s'.now s'.store (attemptsKey t j) = Redis.int? s.now s.store (attemptsKey t j) := by
  rw [h.now]
  exact int?_congr (value?_congr h.counter)

theorem untouched_quiet {service : IngestionJobService} {t' : String} {e : Op} {r : Except Exn e.Reply} (hj : isUuidHex j = true)
    (hby : e.By service t') (hq : e.Quiet) (ha : e.attempts = false) (hex : exec e ch s = some (r, s')) : Untouched t j s s' :=
  have ⟨hrest, hframe⟩ := exec_quiet hq hex
  ⟨hrest, hframe t j hj, Counter.aside hby ha hex⟩

/-- The save of another job. -/
theorem untouched_save {jobs : JobStore} {job : IngestJob} {n : Int} (hj : isUuidHex j = true) (hjob : isUuidHex job.jobId = true)
    (hne : (t, j) ≠ (job.tenantId, job.jobId)) {r : Except Exn (Op.Reply (.multi (jobs.saveCmds job n)))}
    (hex : exec (.multi (jobs.saveCmds job n)) ch s = some (r, s')) : Untouched t j s s' := by
  obtain ⟨hrest, hframe, -⟩ := exec_save hjob hex
  have hby : Op.By ⟨jobs, ⟨0⟩, {}, 0⟩ job.tenantId (.multi (jobs.saveCmds job n)) := .save rfl hjob
  exact ⟨hrest, hframe t j hj hne, Counter.aside hby rfl hex⟩

/-- Another job's attempt. -/
theorem untouched_attempt {t' j' : String} {ttl : Nat} (hj : isUuidHex j = true) (hj' : isUuidHex j' = true)
    (hne : (t', j') ≠ (t, j)) {r : Except Exn (Op.Reply (.multi [.incr (attemptsKey t' j'), .expire (attemptsKey t' j') ttl]))}
    (hex : exec (.multi [.incr (attemptsKey t' j'), .expire (attemptsKey t' j') ttl]) ch s = some (r, s')) : Untouched t j s s' := by
  have hother : attemptsKey t j ≠ attemptsKey t' j' := fun h => by
    obtain ⟨rfl, rfl⟩ := jobKey_inj (isUuidHex_no_colon hj) (isUuidHex_no_colon hj') ((String.append_left_inj _).mp h)
    exact hne rfl
  have hframe : ∀ c ∈ ([.incr (attemptsKey t' j'), .expire (attemptsKey t' j') ttl] : List (Cmd Blob)), attemptsKey t j ∉ c.writes := by
    intro c hc hmem
    simp only [List.mem_cons, List.not_mem_nil, or_false] at hc
    rcases hc with rfl | rfl <;> exact hother (List.mem_singleton.mp hmem)
  obtain ⟨hrest, hrecord⟩ := exec_quiet plain_attempt.quiet hex
  refine ⟨hrest, hrecord t j hj, ?_⟩
  obtain ⟨-, hs | hs⟩ := exec_multi hex
  · rw [hs]
  · rw [hs, execAll_frame hframe]

/-- One operation of a delivery of another job. -/
theorem untouched_other {q : Driver} {tag : Nat} {m : Message} {e : Op} {r : Except Exn e.Reply} (hj : isUuidHex j = true)
    (hm : isUuidHex m.jobId = true) (hne : m.job ≠ (t, j)) (hby : e.By q.service m.tenantId)
    (hmay : (ownMonitor q tag m).may () (.job e)) (hex : exec e ch s = some (r, s')) : Untouched t j s s' := by
  obtain ⟨⟨hq, -⟩ | ⟨job, n, rfl, hown⟩, hattempt⟩ := hmay
  · cases ha : e.attempts with
    | false => exact untouched_quiet hj hby hq ha hex
    | true =>
      obtain rfl := hattempt ha
      exact untouched_attempt hj hm hne hex
  · have hjob : isUuidHex job.jobId = true := by rw [show job.jobId = m.jobId from congrArg Prod.snd hown]; exact hm
    exact untouched_save hj hjob (fun h => hne (hown.symm.trans h.symm)) hex

end Exec

/-- What an operation of the service does here: its own work, and a copy for a message that was sent. -/
theorem driverExec_job {e : Op} {ch : Choice} {s s' : Backend} {r : Except Exn e.Reply} (he : ∀ job p, e ≠ .enqueue job p)
    (hex : driverExec (.job e) ch s = some (r, s')) : ∃ jobs, exec e ch s.jobs = some (r, jobs) ∧ s' = { s with jobs } := by
  have heq : driverExec (.job e) ch s = (exec e ch s.jobs).map fun x => (x.1, { s with jobs := x.2 }) := by
    cases e with
    | enqueue job p => exact absurd rfl (he job p)
    | _ => rfl
  rw [heq, Option.map_eq_some_iff] at hex
  obtain ⟨⟨r', jobs⟩, hjobs, hx⟩ := hex
  cases hx
  exact ⟨jobs, hjobs, rfl⟩

theorem driverExec_enqueue {job : IngestJob} {p : String} {ch : Choice} {s s' : Backend}
    {r : Except Exn (Op.Reply (.enqueue job p))} (hex : driverExec (.job (.enqueue job p)) ch s = some (r, s')) :
    ∃ jobs, exec (.enqueue job p) ch s.jobs = some (r, jobs) ∧ (jobs = s.jobs ∧ s' = s ∨
      jobs = { s.jobs with messages := (job.tenantId, job.jobId, p) :: s.jobs.messages } ∧
        s' = { s with jobs }.put { tenantId := job.tenantId, jobId := job.jobId, payloadId := p }) := by
  unfold driverExec at hex
  rw [Option.map_eq_some_iff] at hex
  obtain ⟨⟨r', jobs⟩, hjobs, hx⟩ := hex
  dsimp only at hx
  cases hx
  refine ⟨jobs, hjobs, ?_⟩
  rcases exec_enqueue hjobs with rfl | rfl
  · exact Or.inl ⟨rfl, if_pos rfl⟩
  · exact Or.inr ⟨rfl, if_neg (List.cons_ne_self _ _)⟩

end NexusGate.Workers
