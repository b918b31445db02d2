import NexusGate.Async.Lives
import NexusGate.Theorems.Workers.Absorbing
import NexusGate.Theorems.Workers.AttemptWatch

/-! # Attempts are bounded

The number of a delivery comes from the job's counter in Redis, which outlives the worker. While the counter does
not expire, `ingest` is entered only by deliveries that were cleared, and each of them took a number of its own. -/

namespace NexusGate.Workers
open Async Async.System Redis Rag

section Events
variable {service : IngestionJobService}

/-- A delivery of the job starts. -/
def delivers (t j : String) : (system service).Event → Bool
  | .start _ (.execute t' j' _) => t' == t && j' == j
  | _ => false

/-- The number that `start_attempt` returned. -/
def given : (system service).Event → Option Int
  | .did _ _ e r => Op.number e r
  | _ => none

/-- A delivery of the job was counted, and knows its number. -/
def startsAttempt (t j : String) : (system service).Event → Bool
  | .did _ (.execute t' j' _) e r => t' == t && j' == j && (Op.number e r).isSome
  | _ => false

/-- A delivery of the job read the clock. -/
def readsClock (t j : String) : (system service).Event → Bool
  | .did _ (.execute t' j' _) e _ => t' == t && j' == j && Op.isClock e
  | _ => false

/-- The event is a reading of the clock. -/
def clock : (system service).Event → Bool
  | .did _ _ e _ => Op.isClock e
  | _ => false

/-- The event is a call of `ingest`. -/
def ingests : (system service).Event → Bool
  | .did _ _ e _ => Op.isIngest e
  | _ => false

/-- `FAILED` was stored for the job. -/
def storesFailed (t j : String) : (system service).Event → Bool
  | .did _ _ e r => (Op.saves e).any (fun job => job.tenantId == t && job.jobId == j && job.status == .failed) && succeeded r
  | _ => false

/-- The job was pushed to the dead-letter queue. -/
def deadLetters (t j : String) : (system service).Event → Bool
  | .did _ _ e r => (Op.pushes e).any (fun job => job.tenantId == t && job.jobId == j) && succeeded r
  | _ => false

/-- The step brings a delivery of the job to its call of `ingest`. -/
def entersIngest (t j : String) : (system service).Act → Pool service → Bool
  | .op i _, w' => match w'.threads i with
    | some ⟨.execute t' j' _, .op e _⟩ => t' == t && j' == j && Op.isIngest e
    | _ => false
  | _, _ => false

/-- Every delivery gets a number greater than that of the deliveries counted before it. -/
def Numbered (t j : String) : List (system service).Event → Prop
  | [] => True
  | v :: tr => (startsAttempt t j v = true → ∀ a, given v = some a → tr.countP (startsAttempt t j) < a) ∧ Numbered t j tr

/-- The delivery got a number over the limit. -/
def OverLimit (life : List (system service).Event) : Prop := ∃ v ∈ life, ∃ a, given v = some a ∧ service.maxAttempts < a

/-- What becomes of a delivery whose number is over the limit. -/
structure Refused (w : Pool service) (i : Nat) : Prop where
  idle : ∀ c e k, w.threads i = some ⟨c, .op e k⟩ → Op.isIngest e = false
  untouched : ∀ v ∈ life i w.trace, ingests v = false
  recorded : ∀ t j p r, (life i w.trace).head? = some (.ended i (.execute t j p) (.ok r)) →
    (∃ v ∈ life i w.trace, storesFailed t j v = true) ∧ ∃ v ∈ life i w.trace, deadLetters t j v = true

/-- What is promised of the deliveries of a job in a run. -/
structure Bounded (t j : String) (as : List (system service).Act) (w : Pool service) : Prop where
  entries : ((emptyPool service).count (entersIngest t j) as : Int) ≤ max service.maxAttempts 0
  numbered : Numbered t j w.trace
  refused : ∀ i, OverLimit (life i w.trace) → Refused w i

/-- How many deliveries of the job were started before call `i` was. -/
def started (t j : String) (i : Nat) : List (system service).Event → Nat
  | [] => 0
  | .start k _ :: tr => if k = i then tr.countP (delivers t j) else started t j i tr
  | _ :: tr => started t j i tr

/-- The job's counter has not expired. -/
def retained (t j : String) (w : Pool service) (_ : (system service).Act) : Bool :=
  (w.state.store.lookup (attemptsKey t j)).all (Entry.live w.state.now)

end Events

/-! ### One delivery -/

section Lived
variable {service : IngestionJobService} {i : Nat} {c : Call} {g g' : Stage} {evs : List (system service).Event}

/-- The number, if this is one, is within the limit. -/
def Within (v : (system service).Event) : Prop := ∀ a, given v = some a → a ≤ service.maxAttempts

/-- What a delivery has done when it has come as far as this. -/
def Sofar (c : Call) (evs : List (system service).Event) : Stage → Prop
  | .waiting | .cleared => ∀ v ∈ evs, Within v ∧ clock v = false ∧ ingests v = false
  | .entered => (∀ v ∈ evs, Within v) ∧ ∃ v rest, evs = v :: rest ∧ clock v = true ∧ ∀ u ∈ rest, clock u = false
  | .past => (∀ v ∈ evs, Within v) ∧ ∃ v ∈ evs, clock v = true
  | .leaving => ∀ v ∈ evs, Within v
  | .refused failed pushed => (∀ v ∈ evs, ingests v = false) ∧
      (failed = true → ∃ v ∈ evs, storesFailed c.job.1 c.job.2 v = true) ∧
      (pushed = true → ∃ v ∈ evs, deadLetters c.job.1 c.job.2 v = true)

/-- A running delivery at stage `g`. -/
structure Lived (i : Nat) (c : Call) (evs : List (system service).Event) (g : Stage) : Prop where
  own : ∀ v ∈ evs, ∃ e r, v = .did i c e r
  sofar : Sofar c evs g

theorem Lived.start (h : g = .waiting ∨ g = .leaving) : Lived i c ([] : List (system service).Event) g where
  own v hv := by cases hv
  sofar := by
    rcases h with rfl | rfl <;> exact fun v hv => by cases hv

/-- The stages before the limit is exceeded. -/
theorem Sofar.within (h : Sofar c evs g) (hg : ∀ failed pushed, g ≠ .refused failed pushed) : ∀ v ∈ evs, Within v := by
  cases g with
  | waiting => exact fun v hv => (h v hv).1
  | cleared => exact fun v hv => (h v hv).1
  | entered => exact h.1
  | past => exact h.1
  | leaving => exact h
  | refused failed pushed => exact absurd rfl (hg failed pushed)

theorem Lived.refused (h : Lived i c evs g) (hover : OverLimit evs) : ∃ failed pushed, g = .refused failed pushed := by
  by_contra hne
  obtain ⟨v, hv, a, ha, hlt⟩ := hover
  have := h.sofar.within (fun failed pushed hg => hne ⟨failed, pushed, hg⟩) v hv a ha
  omega

theorem number_of_aside {e : Op} {r : Except Exn e.Reply} (he : e.attempts = false) : Op.number e r = none := by
  unfold Op.number
  split
  · cases he
  · rfl

/-- An operation that is no start of an attempt. -/
theorem within_did {e : Op} {r : Except Exn e.Reply} (he : e.attempts = false) : Within (.did i c e r : (system service).Event) :=
  fun _ ha => by cases (number_of_aside he).symm.trans ha

/-- Only a delivery without a number asks for one. -/
theorem starts_of_attempts {t j : String} {e : Op} (hmay : (attemptMonitor service t j).may g e) (he : e.attempts = true) :
    g = .waiting ∧ e = .multi [.incr (attemptsKey t j), .expire (attemptsKey t j) service.jobs.retention] := by
  have hnot : e.attempts = false → False := fun h => by cases h.symm.trans he
  cases g with
  | waiting =>
    rcases hmay with rfl | rfl
    · cases he
    · exact ⟨rfl, rfl⟩
  | cleared =>
    have haside : e.Aside := hmay
    exact (hnot haside.attempts).elim
  | entered =>
    have hingest : e.isIngest = true := hmay
    cases e <;> first | cases he | cases hingest
  | past =>
    have haside : e.Aside := hmay
    exact (hnot haside.attempts).elim
  | leaving =>
    have hblind : e.Blind := hmay
    exact (hnot hblind.attempts).elim
  | refused failed pushed => exact (hnot hmay.1.attempts).elim

/-- One step of a delivery. -/
theorem Lived.did {e : Op} {r : Except Exn e.Reply} (h : Lived i c evs g)
    (hmay : (attemptMonitor service c.job.1 c.job.2).may g e) (hnext : (attemptMonitor service c.job.1 c.job.2).next g e r g') :
    Lived i c (.did i c e r :: evs : List (system service).Event) g' where
  own v hv := by
    rcases List.mem_cons.mp hv with rfl | hv
    · exact ⟨e, r, rfl⟩
    · exact h.own v hv
  sofar := by
    have hsofar := h.sofar
    cases g with
    | waiting =>
      rcases hmay with rfl | rfl
      · obtain ⟨rfl, -⟩ : g' = .waiting ∧ _ := hnext
        exact List.forall_mem_cons.mpr ⟨⟨within_did rfl, rfl, rfl⟩, hsofar⟩
      · cases hnumber : Op.number _ r with
        | none =>
          obtain rfl : g' = .leaving := by simpa [attemptMonitor, Op.attempts, hnumber] using hnext
          exact List.forall_mem_cons.mpr ⟨(fun a ha => by cases hnumber.symm.trans ha), fun v hv => (hsofar v hv).1⟩
        | some a =>
          have hnext : g' = Stage.numbered service a := by simpa [attemptMonitor, Op.attempts, hnumber] using hnext
          dsimp only [Stage.numbered] at hnext
          split at hnext
          · subst hnext
            exact ⟨List.forall_mem_cons.mpr ⟨rfl, fun v hv => (hsofar v hv).2.2⟩, (fun h => by cases h), fun h => by cases h⟩
          · subst hnext
            refine List.forall_mem_cons.mpr ⟨⟨fun b hb => ?_, rfl, rfl⟩, hsofar⟩
            cases hnumber.symm.trans hb
            omega
    | cleared =>
      obtain rfl : g' = if e.isClock then .entered else .cleared := hnext
      obtain ⟨hattempts, hingest⟩ : e.Aside := hmay
      cases hclock : e.isClock with
      | true =>
        exact ⟨List.forall_mem_cons.mpr ⟨within_did hattempts, fun v hv => (hsofar v hv).1⟩, _, _, rfl, hclock,
          fun u hu => (hsofar u hu).2.1⟩
      | false => exact List.forall_mem_cons.mpr ⟨⟨within_did hattempts, hclock, hingest⟩, hsofar⟩
    | entered =>
      obtain rfl : g' = .past := hnext
      have hingest : e.isIngest = true := hmay
      have hattempts : e.attempts = false := by cases e <;> first | rfl | cases hingest
      obtain ⟨hwithin, v, rest, hevs, hclock, -⟩ := hsofar
      exact ⟨List.forall_mem_cons.mpr ⟨within_did hattempts, hwithin⟩, v, List.mem_cons_of_mem _ (hevs ▸ List.mem_cons_self), hclock⟩
    | past =>
      obtain rfl : g' = .past := hnext
      have haside : e.Aside := hmay
      obtain ⟨hwithin, v, hv, hclock⟩ := hsofar
      exact ⟨List.forall_mem_cons.mpr ⟨within_did haside.attempts, hwithin⟩, v, List.mem_cons_of_mem _ hv, hclock⟩
    | leaving =>
      obtain rfl : g' = .leaving := hnext
      have hblind : e.Blind := hmay
      exact List.forall_mem_cons.mpr ⟨within_did hblind.attempts, hsofar⟩
    | refused failed pushed =>
      obtain rfl : g' = .refused (failed || e.saves.isSome && succeeded r) (pushed || e.pushes.isSome && succeeded r) := hnext
      obtain ⟨hblind, hsaves, hpushes⟩ : e.Blind ∧ (∀ job, e.saves = some job → _) ∧ ∀ job, e.pushes = some job → _ := hmay
      obtain ⟨huntouched, hfailed, hpushed⟩ := hsofar
      refine ⟨List.forall_mem_cons.mpr ⟨hblind.ingest, huntouched⟩, fun h => ?_, fun h => ?_⟩
      · rcases Bool.or_eq_true_iff.mp h with h | h
        · obtain ⟨v, hv, hstores⟩ := hfailed h
          exact ⟨v, List.mem_cons_of_mem _ hv, hstores⟩
        · obtain ⟨hsome, hok⟩ := Bool.and_eq_true_iff.mp h
          obtain ⟨job, hjob⟩ := Option.isSome_iff_exists.mp hsome
          obtain ⟨ht, hj, hstatus⟩ := hsaves job hjob
          refine ⟨_, List.mem_cons_self, ?_⟩
          simp only [storesFailed, hjob, Option.any_some, ht, hj, hstatus, beq_self_eq_true, Bool.and_self, Bool.true_and]
          exact hok
      · rcases Bool.or_eq_true_iff.mp h with h | h
        · obtain ⟨v, hv, hdead⟩ := hpushed h
          exact ⟨v, List.mem_cons_of_mem _ hv, hdead⟩
        · obtain ⟨hsome, hok⟩ := Bool.and_eq_true_iff.mp h
          obtain ⟨job, hjob⟩ := Option.isSome_iff_exists.mp hsome
          obtain ⟨ht, hj⟩ := hpushes job hjob
          refine ⟨_, List.mem_cons_self, ?_⟩
          simp only [deadLetters, hjob, Option.any_some, ht, hj, beq_self_eq_true, Bool.and_self, Bool.true_and]
          exact hok

end Lived
/-! ### The counter -/

section Counter
variable {s s' : State} {ch : Choice} {k : String} {n : Int}

/-- The counter under the key, not there before the first attempt. -/
def Counter (s : State) (k : String) (n : Int) : Prop :=
  match s.store.lookup k with
  | none => n = 0
  | some e => e.value = .str (.int n)

theorem Counter.congr (h : Counter s k n) (hl : s'.store.lookup k = s.store.lookup k) : Counter s' k n := by
  unfold Counter
  rw [hl]
  exact h

theorem Counter.int (h : Counter s k n) (hlive : (s.store.lookup k).all (Entry.live s.now) = true) :
    int? s.now s.store k = some n := by
  unfold Counter at h
  cases hl : s.store.lookup k with
  | none =>
    rw [hl] at h
    rw [int?, value?, live?, hl, h]
    rfl
  | some e =>
    rw [hl] at h hlive
    have he : live? s.now s.store k = some e := Option.filter_eq_some_iff.mpr ⟨hl, hlive⟩
    rw [int?, value?, he, Option.map_some, h]
    rfl

/-- What `start_attempt` does to the counter, whether or not its answer arrives. -/
theorem Counter.attempt {ttl : Nat} {r : Except Exn (Op.Reply (.multi [.incr k, .expire k ttl]))} (h : Counter s k n)
    (hlive : (s.store.lookup k).all (Entry.live s.now) = true) (httl : 0 < ttl)
    (hex : exec (.multi [.incr k, .expire k ttl]) ch s = some (r, s')) :
    (Counter s' k n ∧ Op.number _ r = none) ∨
    (Counter s' k (n + 1) ∧ ∀ a, Op.number _ r = some a → a = n + 1) := by
  obtain ⟨hreply, hvalue⟩ := exec_incr_int (h.int hlive)
  have hafter : ∀ t : State, t.store = (Redis.execAll s.now [.incr k, .expire k ttl] s.store).2 → Counter t k (n + 1) := by
    intro t ht
    have hkept : value? s.now t.store k = some (.str (.int (n + 1))) := by
      rw [ht]
      exact (exec_expire_keeps httl).trans hvalue
    obtain ⟨e, he, hv⟩ := lookup_of_value? hkept
    unfold Counter
    rw [he]
    exact hv
  cases ch with
  | ok =>
    simp only [exec, Option.some.injEq, Prod.mk.injEq] at hex
    obtain ⟨hr, rfl⟩ := hex
    refine Or.inr ⟨hafter _ rfl, fun a ha => ?_⟩
    rw [execAll_cons_fst, hreply] at hr
    subst hr
    split at ha
    · cases ha
    · cases ha
      rfl
  | lost applied =>
    simp only [exec, Option.some.injEq, Prod.mk.injEq] at hex
    obtain ⟨rfl, rfl⟩ := hex
    cases applied with
    | false => exact Or.inl ⟨h, rfl⟩
    | true => exact Or.inr ⟨hafter _ rfl, fun a ha => by cases ha⟩
  | _ => cases hex

/-- No other operation of a call writes an attempts counter. -/
theorem Counter.aside {service : IngestionJobService} {t t' j : String} {e : Op} {r : Except Exn e.Reply} (he : e.By service t')
    (hattempts : e.attempts = false) (hex : exec e ch s = some (r, s')) :
    s'.store.lookup (attemptsKey t j) = s.store.lookup (attemptsKey t j) := by
  have hredis : ∀ {c : Cmd Blob} {r : Except Exn (Op.Reply (.redis c))}, attemptsKey t j ∉ c.writes →
      exec (.redis c) ch s = some (r, s') → s'.store.lookup (attemptsKey t j) = s.store.lookup (attemptsKey t j) := by
    intro c r hc hex
    obtain ⟨-, hs | hs⟩ := exec_redis hex
    · rw [hs]
    · rw [hs, exec_frame hc]
  have hmulti : ∀ {cs : List (Cmd Blob)} {r : Except Exn (Op.Reply (.multi cs))}, (∀ c ∈ cs, attemptsKey t j ∉ c.writes) →
      exec (.multi cs) ch s = some (r, s') → s'.store.lookup (attemptsKey t j) = s.store.lookup (attemptsKey t j) := by
    intro cs r hcs hex
    obtain ⟨-, hs | hs⟩ := exec_multi hex
    · rw [hs]
    · rw [hs, execAll_frame hcs]
  cases he with
  | payload hw => exact hredis (fun hmem => jobKey_ne_payloadKey (attemptsKey_eq ▸ hw _ hmem)) hex
  | sequence => exact hredis (fun hmem => jobKey_ne_sequenceKey (attemptsKey_eq ▸ List.mem_singleton.mp hmem)) hex
  | count => exact hredis (fun hmem => jobKey_ne_statsKey (attemptsKey_eq ▸ List.mem_singleton.mp hmem)) hex
  | duration => exact hredis (fun hmem => jobKey_ne_statsKey (attemptsKey_eq ▸ List.mem_singleton.mp hmem)) hex
  | save ht hj =>
    refine hmulti (fun c hc hmem => ?_) hex
    simp only [JobStore.saveCmds, List.mem_cons, List.not_mem_nil, or_false] at hc
    rcases hc with rfl | rfl | rfl
    · exact jobKey_ne_attemptsKey hj (List.mem_singleton.mp hmem).symm
    · exact jobKey_ne_ragjobs (attemptsKey_eq ▸ List.mem_singleton.mp hmem)
    · exact jobKey_ne_ragjobs (attemptsKey_eq ▸ List.mem_singleton.mp hmem)
  | attempt hj => cases hattempts
  | push =>
    refine hmulti (fun c hc hmem => ?_) hex
    simp only [List.mem_cons, List.not_mem_nil, or_false] at hc
    rcases hc with rfl | rfl <;> exact jobKey_ne_dlqKey (attemptsKey_eq ▸ List.mem_singleton.mp hmem)
  | enqueue ht hj => rcases exec_enqueue hex with rfl | rfl <;> rfl
  | uuid =>
    obtain ⟨u, -, -, -, rfl⟩ := exec_uuid hex
    rfl
  | utcnow =>
    cases ch <;> simp only [exec, Option.some.injEq, Prod.mk.injEq, reduceCtorEq] at hex
    rw [hex.2]
  | perfCounter =>
    cases ch <;> simp only [exec, Option.some.injEq, Prod.mk.injEq, reduceCtorEq] at hex
    rw [hex.2]
  | ingest => cases ch <;> simp only [exec, Option.some.injEq, Prod.mk.injEq, reduceCtorEq] at hex <;> rw [hex.2]

end Counter
/-! ### Every run -/

section Run
variable {service : IngestionJobService} {t j : String} {s s' : State} {tr : List (system service).Event}
  {Γ Γ' : Nat → Option (Call × Stage)} {i : Nat} {c : Call} {g g' : Stage} {n : Int} {L : List Nat}

/-- How often a delivery of the job has come to `ingest`: it has read the clock for the first time. -/
def clocked (t j : String) : List (system service).Event → Nat
  | [] => 0
  | v :: tr => (if readsClock t j v && !(life v.thread tr).any clock then 1 else 0) + clocked t j tr

/-- The deliveries in `L` are cleared to run: each has a number of its own, up to `n`. -/
structure Tokens (t j : String) (tr : List (system service).Event) (Γ : Nat → Option (Call × Stage)) (n : Int)
    (L : List Nat) : Prop where
  holders : ∀ i p, Γ i = some (.execute t j p, .cleared) → i ∈ L
  taken : ((clocked t j tr + L.length : Nat) : Int) ≤ n
  limit : ((clocked t j tr + L.length : Nat) : Int) ≤ max service.maxAttempts 0
  counted : (tr.countP (startsAttempt t j) : Int) ≤ n

/-- A delivery that is over. -/
def Gone (i : Nat) (evs : List (system service).Event) : Prop :=
  OverLimit evs → (∀ v ∈ evs, ingests v = false) ∧ ∀ t j p r, evs.head? = some (.ended i (.execute t j p) (.ok r)) →
    (∃ v ∈ evs, storesFailed t j v = true) ∧ ∃ v ∈ evs, deadLetters t j v = true

/-- What holds of the attempts at a job in every state of a run. -/
structure AttemptInv (t j : String) (s : State) (tr : List (system service).Event) (Γ : Nat → Option (Call × Stage)) :
    Prop where
  lived : ∀ i c g, Γ i = some (c, g) → Lived i c (life i tr) g
  gone : ∀ i, Γ i = none → Gone i (life i tr)
  tokens : ∃ n L, Counter s (attemptsKey t j) n ∧ Tokens t j tr Γ n L
  numbered : Numbered t j tr

/-- An event that neither takes a number nor comes to `ingest`. -/
theorem Tokens.log {v : (system service).Event} (h : Tokens t j tr Γ n L) (hclock : readsClock t j v = false)
    (hstarts : startsAttempt t j v = false)
    (hΓ : ∀ i p, Γ' i = some (.execute t j p, .cleared) → Γ i = some (.execute t j p, .cleared)) :
    Tokens t j (v :: tr) Γ' n L where
  holders i p hi := h.holders i p (hΓ i p hi)
  taken := by
    rw [clocked, hclock]
    simpa using h.taken
  limit := by
    rw [clocked, hclock]
    simpa using h.limit
  counted := by
    rw [List.countP_cons_of_neg (by simp [hstarts])]
    exact h.counted

/-- The board changes at `i` only, to something that is not cleared. -/
theorem cleared_of_update {x : Option (Call × Stage)} (hx : ∀ c g, x = some (c, g) → g ≠ .cleared) {k : Nat} {p : String}
    (h : Function.update Γ i x k = some (.execute t j p, .cleared)) : k ≠ i ∧ Γ k = some (.execute t j p, .cleared) := by
  rw [Function.update_apply] at h
  split at h
  · exact absurd rfl (hx _ _ h)
  · exact ⟨by assumption, h⟩

/-- What happens to one call leaves the others as they are. -/
theorem AttemptInv.others {v : (system service).Event} {x : Option (Call × Stage)} (h : AttemptInv t j s tr Γ)
    (hv : v.thread = i) (hlived : ∀ c g, x = some (c, g) → Lived i c (life i (v :: tr)) g)
    (hgone : x = none → Gone i (life i (v :: tr)))
    (htokens : ∃ n L, Counter s' (attemptsKey t j) n ∧ Tokens t j (v :: tr) (Function.update Γ i x) n L)
    (hnumbered : startsAttempt t j v = true → ∀ a, given v = some a → tr.countP (startsAttempt t j) < a) :
    AttemptInv t j s' (v :: tr) (Function.update Γ i x) where
  lived k c g hk := by
    by_cases hki : k = i
    · subst hki
      rw [Function.update_self] at hk
      exact hlived c g hk
    · rw [Function.update_of_ne hki] at hk
      rw [life_other (fun h => hki (h.symm.trans hv))]
      exact h.lived k c g hk
  gone k hk := by
    by_cases hki : k = i
    · subst hki
      rw [Function.update_self] at hk
      exact hgone hk
    · rw [Function.update_of_ne hki] at hk
      rw [life_other (fun h => hki (h.symm.trans hv))]
      exact h.gone k hk
  tokens := htokens
  numbered := ⟨hnumbered, h.numbered⟩

/-- A call ends, or dies. -/
theorem AttemptInv.leave {v : (system service).Event} (h : AttemptInv t j s tr Γ) (hi : Γ i = some (c, g))
    (hv : life i (v :: tr) = v :: life i tr) (hthread : v.thread = i) (hgiven : given v = none) (hingests : ingests v = false)
    (hclock : readsClock t j v = false) (hstarts : startsAttempt t j v = false)
    (hended : ∀ t j p r, v = .ended i (.execute t j p) (.ok r) → c = .execute t j p ∧
      ∀ failed pushed, g = .refused failed pushed → failed = true ∧ pushed = true) :
    AttemptInv t j s (v :: tr) (Function.update Γ i none) := by
  refine h.others hthread (fun _ _ hx => by cases hx) (fun _ hover => ?_) ?_ fun hs => absurd hs (by simp [hstarts])
  · have hlived := h.lived i c g hi
    rw [hv] at hover ⊢
    have hover' : OverLimit (life i tr) := by
      obtain ⟨u, hu, a, ha, hlt⟩ := hover
      rcases List.mem_cons.mp hu with rfl | hu
      · cases hgiven.symm.trans ha
      · exact ⟨u, hu, a, ha, hlt⟩
    obtain ⟨failed, pushed, rfl⟩ := hlived.refused hover'
    obtain ⟨huntouched, hfailed, hpushed⟩ := hlived.sofar
    refine ⟨List.forall_mem_cons.mpr ⟨hingests, huntouched⟩, fun t' j' p r hhead => ?_⟩
    obtain ⟨rfl, hdone⟩ := hended t' j' p r (Option.some.inj hhead)
    obtain ⟨rfl, rfl⟩ := hdone _ _ rfl
    obtain ⟨u, hu, hstored⟩ := hfailed rfl
    obtain ⟨u', hu', hdead⟩ := hpushed rfl
    exact ⟨⟨u, List.mem_cons_of_mem _ hu, hstored⟩, u', List.mem_cons_of_mem _ hu', hdead⟩
  · obtain ⟨n, L, hcounter, htokens⟩ := h.tokens
    refine ⟨n, L, hcounter, htokens.log hclock hstarts fun k p hk => ?_⟩
    exact (cleared_of_update (fun _ _ hx => by cases hx) hk).2

/-- A step that does not start an attempt. -/
theorem Tokens.step {e : Op} {r : Except Exn e.Reply} (h : Tokens t j tr Γ n L) (hlived : Lived i c (life i tr) g)
    (hi : Γ i = some (c, g)) (hattempts : e.attempts = false)
    (hmay : (attemptMonitor service c.job.1 c.job.2).may g e) (hnext : (attemptMonitor service c.job.1 c.job.2).next g e r g') :
    ∃ L', Tokens t j (.did i c e r :: tr) (Function.update Γ i (some (c, g'))) n L' := by
  have hstarts : startsAttempt t j (.did i c e r : (system service).Event) = false := by
    cases c with
    | submit t' u q => rfl
    | execute t' j' p => simp [startsAttempt, number_of_aside hattempts]
  cases hfirst : readsClock t j (.did i c e r : (system service).Event) && !(life i tr).any clock with
  | false =>
    refine ⟨L, fun k p hk => ?_, ?_, ?_, ?_⟩
    · rcases board_entry hk with ⟨rfl, hx⟩ | ⟨-, hk⟩
      · obtain ⟨rfl, rfl⟩ := Prod.mk.inj hx
        have hg : g = .cleared := by
          cases g with
          | waiting =>
            rcases hmay with rfl | rfl
            · cases hnext.1
            · cases hattempts
          | cleared => rfl
          | _ => cases hnext
        exact h.holders k p (hg ▸ hi)
      · exact h.holders k p hk
    · simpa [clocked, Event.thread, hfirst] using h.taken
    · simpa [clocked, Event.thread, hfirst] using h.limit
    · rw [List.countP_cons_of_neg (by simp [hstarts])]
      exact h.counted
  | true =>
    obtain ⟨hreads, hnone⟩ := Bool.and_eq_true_iff.mp hfirst
    cases c with
    | submit t' u q => cases hreads
    | execute t' j' p =>
      simp only [readsClock, Bool.and_eq_true, beq_iff_eq] at hreads
      obtain ⟨⟨rfl, rfl⟩, hclock⟩ := hreads
      have hg : g = .cleared := by
        cases g with
        | waiting => rcases hmay with rfl | rfl <;> cases hclock
        | cleared => rfl
        | entered =>
          have hingest : e.isIngest = true := hmay
          cases e <;> first | cases hclock; done | cases hingest
        | past =>
          obtain ⟨-, v, hv, hread⟩ := hlived.sofar
          have hany : (life i tr).any clock = true := List.any_eq_true.mpr ⟨v, hv, hread⟩
          rw [hany] at hnone
          cases hnone
        | leaving =>
          have hblind : e.Blind := hmay
          rw [hblind.clock] at hclock
          cases hclock
        | refused failed pushed =>
          rw [hmay.1.clock] at hclock
          cases hclock
      subst hg
      have hmem : i ∈ L := h.holders i p hi
      have hg' : g' = .entered := by
        have hnext : g' = if e.isClock then Stage.entered else .cleared := hnext
        rw [hnext, hclock]
        rfl
      have hlength : (L.erase i).length + 1 = L.length := by
        rw [List.length_erase_of_mem hmem]
        have := List.length_pos_of_mem hmem
        omega
      refine ⟨L.erase i, fun k q hk => ?_, ?_, ?_, ?_⟩
      · obtain ⟨hki, hk⟩ := cleared_of_update (fun c g hx => by cases hx; rw [hg']; nofun) hk
        exact (List.mem_erase_of_ne hki).mpr (h.holders k q hk)
      · have := h.taken
        rw [clocked, show Event.thread _ = i from rfl, if_pos hfirst]
        omega
      · have := h.limit
        rw [clocked, show Event.thread _ = i from rfl, if_pos hfirst]
        omega
      · rw [List.countP_cons_of_neg (by simp [hstarts])]
        exact h.counted

/-- No delivery of the job is cleared. -/
theorem Tokens.kept {v : (system service).Event} {m : Int} (h : Tokens t j tr Γ n L) (hm : n ≤ m) (hclock : readsClock t j v = false)
    (hstarts : startsAttempt t j v = false) (hg : ∀ p, c = .execute t j p → g' ≠ .cleared) :
    Tokens t j (v :: tr) (Function.update Γ i (some (c, g'))) m L := by
  have hlog := @Tokens.log _ _ _ _ Γ (Function.update Γ i (some (c, g'))) _ _ v h hclock hstarts fun k p hk => by
    rcases board_entry hk with ⟨-, hx⟩ | ⟨-, hk⟩
    · obtain ⟨rfl, hcleared⟩ := Prod.mk.inj hx
      exact absurd hcleared (hg p rfl)
    · exact hk
  exact ⟨hlog.holders, hlog.taken.trans hm, hlog.limit, hlog.counted.trans hm⟩

/-- The counter gives out the next number. -/
theorem Tokens.fresh {v : (system service).Event} (h : Tokens t j tr Γ n L) (hclock : readsClock t j v = false) :
    ∃ L', Tokens t j (v :: tr) (Function.update Γ i (some (c, Stage.numbered service (n + 1)))) (n + 1) L' := by
  have hcounted : ((v :: tr).countP (startsAttempt t j) : Int) ≤ n + 1 := by
    have := h.counted
    rw [List.countP_cons]
    split <;> omega
  have htaken := h.taken
  have hlimit := h.limit
  have hclocked : clocked t j (v :: tr) = clocked t j tr := by simp [clocked, hclock]
  by_cases hover : n + 1 > service.maxAttempts
  · refine ⟨L, fun k p hk => ?_, by rw [hclocked]; omega, by rw [hclocked]; exact hlimit, hcounted⟩
    refine h.holders k p (cleared_of_update (fun c' g hx => ?_) hk).2
    cases hx
    rw [Stage.numbered, if_pos hover]
    nofun
  · refine ⟨i :: L, fun k p hk => ?_, ?_, ?_, hcounted⟩
    · rcases board_entry hk with ⟨rfl, -⟩ | ⟨-, hk⟩
      · exact List.mem_cons_self
      · exact List.mem_cons_of_mem _ (h.holders k p hk)
    · rw [hclocked, List.length_cons]
      omega
    · rw [hclocked, List.length_cons]
      omega

/-- A delivery asks for its number. -/
theorem AttemptInv.attempt {e : Op} {r : Except Exn e.Reply} {ch : Choice} (h : AttemptInv t j s tr Γ) (hr : 0 < service.jobs.retention)
    (hlive : (s.store.lookup (attemptsKey t j)).all (Entry.live s.now) = true)
    (he : e = .multi [.incr (attemptsKey c.job.1 c.job.2), .expire (attemptsKey c.job.1 c.job.2) service.jobs.retention])
    (hex : exec e ch s = some (r, s'))
    (hnext : g' = match Op.number e r with
      | some a => Stage.numbered service a
      | none => .leaving) :
    (∃ n L, Counter s' (attemptsKey t j) n ∧ Tokens t j (.did i c e r :: tr) (Function.update Γ i (some (c, g'))) n L) ∧
    (startsAttempt t j (.did i c e r : (system service).Event) = true → ∀ a, Op.number e r = some a →
      tr.countP (startsAttempt t j) < a) := by
  obtain ⟨n, L, hcounter, htokens⟩ := h.tokens
  have hclock : readsClock t j (.did i c e r : (system service).Event) = false := by
    subst he
    cases c <;> simp [readsClock, Op.isClock]
  have hstarts : startsAttempt t j (.did i c e r : (system service).Event) = true →
      attemptsKey c.job.1 c.job.2 = attemptsKey t j ∧ (Op.number e r).isSome = true := by
    intro hs
    cases c with
    | submit t' u q => cases hs
    | execute t' j' p =>
      simp only [startsAttempt, Bool.and_eq_true, beq_iff_eq] at hs
      exact ⟨by rw [Call.job, hs.1.1, hs.1.2], hs.2⟩
  by_cases hk : attemptsKey c.job.1 c.job.2 = attemptsKey t j
  swap
  · have hsilent := Bool.eq_false_iff.mpr fun hs => hk (hstarts hs).1
    have hcounter' : Counter s' (attemptsKey t j) n := by
      subst he
      refine hcounter.congr ?_
      obtain ⟨-, hs | hs⟩ := exec_multi hex
      · rw [hs]
      · rw [hs, execAll_frame]
        intro c' hc' hmem
        simp only [List.mem_cons, List.not_mem_nil, or_false] at hc'
        rcases hc' with rfl | rfl <;> exact hk (List.mem_singleton.mp hmem).symm
    refine ⟨⟨n, L, hcounter', htokens.kept le_rfl hclock hsilent fun p hc => ?_⟩, fun hs => absurd hs (by simp [hsilent])⟩
    exact absurd (by rw [hc]; rfl) hk
  have heffect : (Counter s' (attemptsKey t j) n ∧ Op.number e r = none) ∨
      (Counter s' (attemptsKey t j) (n + 1) ∧ ∀ a, Op.number e r = some a → a = n + 1) := by
    rw [hk] at he
    subst he
    exact hcounter.attempt hlive hr hex
  cases hnumber : Op.number e r with
  | none =>
    have hsilent := Bool.eq_false_iff.mpr fun hs => by
      have := (hstarts hs).2
      rw [hnumber] at this
      cases this
    have hg : ∀ p, c = .execute t j p → g' ≠ .cleared := fun _ _ => by rw [hnext, hnumber]; nofun
    refine ⟨?_, fun hs => absurd hs (by simp [hsilent])⟩
    rcases heffect with ⟨hcounter', -⟩ | ⟨hcounter', -⟩
    · exact ⟨n, L, hcounter', htokens.kept le_rfl hclock hsilent hg⟩
    · exact ⟨n + 1, L, hcounter', htokens.kept (by omega) hclock hsilent hg⟩
  | some a =>
    obtain ⟨hcounter', hvalue⟩ : Counter s' (attemptsKey t j) (n + 1) ∧ a = n + 1 := by
      rcases heffect with ⟨-, hnone⟩ | ⟨hcounter', hvalue⟩
      · cases hnone.symm.trans hnumber
      · exact ⟨hcounter', hvalue a hnumber⟩
    subst hvalue
    rw [hnumber] at hnext
    subst hnext
    obtain ⟨L', htokens'⟩ := @Tokens.fresh _ _ _ _ _ i c _ _ (.did i c e r) htokens hclock
    refine ⟨⟨n + 1, L', hcounter', htokens'⟩, fun _ a ha => ?_⟩
    cases ha
    have := htokens.counted
    omega

/-- The calls write what they are for, and find their own records. -/
def Known (w : Pool service) : Prop := ∃ Γ, (keyWatch service).Shows w Γ ∧ KeyInv (fun _ => True) w.state Γ

theorem known_of_reaches {P : Pool service → (system service).Act → Prop} {w : Pool service}
    (h : World.Reaches P (emptyPool service) w) : Known w := by
  have hany : World.Reaches (Starts fun _ => True) (emptyPool service) w := h.mono fun w a _ => by cases a <;> trivial
  exact keyRules.reaches keyWatch_sound hany ⟨fun _ => none, fun _ => rfl, KeyInv.empty⟩

/-- What is known of the operation that a delivery waits at. -/
theorem Known.op {w : Pool service} (h : Known w) {e : Op} {k : Except Exn e.Reply → Program (Option IngestJob)} {ch : Choice}
    {r : Except Exn e.Reply} (hi : w.threads i = some ⟨c, .op e k⟩) (hex : exec e ch w.state = some (r, s')) :
    e.By service c.tenant ∧ (e = .redis (.get (jobKey c.job.1 c.job.2)) → (∃ p, c = .execute c.job.1 c.job.2 p) →
      ∀ job, e.loaded r = some job → job.tenantId = c.job.1 ∧ job.jobId = c.job.2) := by
  obtain ⟨Γ, hΓ, hinv⟩ := h
  obtain ⟨g, hg, hfollows⟩ := hΓ.of_thread hi
  have hmay := (Follows.op_iff.mp hfollows).1
  cases c with
  | submit t' u q => exact ⟨hmay (by decide), fun _ hp => by obtain ⟨p, hp⟩ := hp; cases hp⟩
  | execute t' j' p =>
    have hu : isUuidHex j' = true := (hinv.sent t' j' p (hinv.running i t' j' p g hg)).2
    exact ⟨hmay hu, fun he _ => (@KeyInv.answer service _ _ _ _ _ _ _ _ _ hinv hu hex).1 he⟩

/-- Whatever is answered, the delivery has come somewhere. -/
theorem stage_next {e : Op} {r : Except Exn e.Reply} (hmay : (attemptMonitor service t j).may g e)
    (hown : g = .waiting → e = .redis (.get (jobKey t j)) → ∀ job, e.loaded r = some job → job.tenantId = t ∧ job.jobId = j) :
    ∃ g', (attemptMonitor service t j).next g e r g' := by
  cases g with
  | waiting =>
    rcases hmay with rfl | rfl
    · exact ⟨.waiting, rfl, hown rfl rfl⟩
    · exact ⟨_, rfl⟩
  | _ => exact ⟨_, rfl⟩

/-- An upload draws no number. -/
def Uploads (Γ : Nat → Option (Call × Stage)) : Prop := ∀ i t u q g, Γ i = some (.submit t u q, g) → g = .leaving

theorem attemptRules (hr : 0 < service.jobs.retention) :
    Rules (attemptWatch service) (fun w a => retained t j w a = true ∧ Known w)
      (fun s tr Γ => AttemptInv t j s tr Γ ∧ Uploads Γ) where
  start {w Γ i c} _ h hi _ _ := by
    obtain ⟨h, huploads⟩ := h
    refine ⟨h.others rfl (fun c' g hx => ?_) (fun hx => by cases hx) ?_ (fun hs => by cases hs), fun k t' u q g hk => ?_⟩
    · obtain ⟨rfl, rfl⟩ := Prod.mk.inj (Option.some.inj hx)
      rw [life_start]
      exact .start (by cases c <;> simp [attemptWatch])
    · obtain ⟨n, L, hcounter, htokens⟩ := h.tokens
      refine ⟨n, L, hcounter, htokens.kept le_rfl rfl rfl fun p hc => ?_⟩
      subst hc
      exact Stage.noConfusion
    · rcases board_entry hk with ⟨-, hx⟩ | ⟨-, hk⟩
      · obtain ⟨rfl, rfl⟩ := Prod.mk.inj hx
        rfl
      · exact huploads k t' u q g hk
  op {w Γ i ch c g e r s} hΓ h hi hthread hmay hex hP := by
    obtain ⟨h, huploads⟩ := h
    obtain ⟨k, hk⟩ := hthread
    obtain ⟨hby, hown⟩ := hP.2.op hk hex
    obtain ⟨g', hnext⟩ : ∃ g', (attemptMonitor service c.job.1 c.job.2).next g e r g' := by
      refine stage_next hmay fun hg he => ?_
      cases c with
      | submit t' u q => cases hg.symm.trans (huploads i t' u q g hi)
      | execute t' j' p => exact hown he ⟨p, rfl⟩
    have hlived := h.lived i c g hi
    have hstep : (∃ n L, Counter s (attemptsKey t j) n ∧
          Tokens t j (.did i c e r :: w.trace) (Function.update Γ i (some (c, g'))) n L) ∧
        (startsAttempt t j (.did i c e r : (system service).Event) = true → ∀ a, Op.number e r = some a →
          w.trace.countP (startsAttempt t j) < a) := by
      cases hattempts : e.attempts with
      | true =>
        obtain ⟨rfl, he⟩ := starts_of_attempts hmay hattempts
        refine h.attempt hr hP.1 he hex ?_
        subst he
        exact hnext
      | false =>
        obtain ⟨n, L, hcounter, htokens⟩ := h.tokens
        obtain ⟨L', htokens'⟩ := htokens.step hlived hi hattempts hmay hnext
        refine ⟨⟨n, L', hcounter.congr (Counter.aside hby hattempts hex), htokens'⟩, fun _ a ha => ?_⟩
        cases (number_of_aside hattempts).symm.trans ha
    refine ⟨g', hnext, h.others rfl (fun c' g'' hx => ?_) (fun hx => by cases hx) hstep.1 hstep.2, fun k' t' u q g'' hk' => ?_⟩
    · cases hx
      rw [life_did]
      exact hlived.did hmay hnext
    · rcases board_entry hk' with ⟨-, hx⟩ | ⟨-, hk'⟩
      · obtain ⟨rfl, rfl⟩ := Prod.mk.inj hx
        obtain rfl := huploads i t' u q g hi
        exact hnext
      · exact huploads k' t' u q g'' hk'
  ended {s tr Γ i c g r} h hi hlast := by
    obtain ⟨h, huploads⟩ := h
    refine ⟨h.leave hi life_ended rfl rfl rfl rfl rfl fun t' j' p r' hv => ?_, fun k t' u q g hk => huploads k t' u q g (clear_entry hk).2⟩
    cases hv
    exact ⟨rfl, fun failed pushed hg => hlast failed pushed hg rfl⟩
  kill {w Γ i c g} _ h hi _ _ := by
    obtain ⟨h, huploads⟩ := h
    exact ⟨h.leave hi life_killed rfl rfl rfl rfl rfl (fun t' j' p r' hv => by cases hv),
      fun k t' u q g hk => huploads k t' u q g (clear_entry hk).2⟩
  env {w Γ b s} _ h hs _ := by
    obtain rfl := Option.some.inj hs
    obtain ⟨h, huploads⟩ := h
    exact ⟨⟨h.lived, h.gone, h.tokens, h.numbered⟩, huploads⟩

/-- What holds in every state that a run comes to. -/
theorem attempts_of_reaches (hr : 0 < service.jobs.retention) {w : Pool service}
    (h : World.Reaches (fun w a => retained t j w a = true) (emptyPool service) w) :
    ∃ Γ, (attemptWatch service).Shows w Γ ∧ AttemptInv t j w.state w.trace Γ := by
  have hempty : AttemptInv t j {} ([] : List (system service).Event) fun _ => none := by
    refine ⟨(fun _ _ _ h => by cases h), fun _ _ hover => ?_, ⟨0, [], rfl, ?_⟩, trivial⟩
    · obtain ⟨_, hv, -⟩ := hover
      cases hv
    · exact ⟨(fun _ _ h => by cases h), le_rfl, le_max_right _ _, le_rfl⟩
  obtain ⟨Γ, hΓ, hinv, -⟩ := (attemptRules hr).reaches attemptWatch_sound (h.strengthen fun w hw => known_of_reaches hw)
    ⟨fun _ => none, fun _ => rfl, hempty, fun _ _ _ _ _ h => by cases h⟩
  exact ⟨Γ, hΓ, hinv⟩

theorem clocked_append : ∀ evs : List (system service).Event, clocked t j tr ≤ clocked t j (evs ++ tr)
  | [] => le_rfl
  | _ :: evs => (clocked_append evs).trans (Nat.le_add_left _ _)

/-- A call that waits for `ingest` has just read the clock for the first time. -/
theorem entered_of_may {e : Op} (hmay : (attemptMonitor service t j).may g e) (he : e.isIngest = true) : g = .entered := by
  have hnot : e.isIngest = false → False := fun h => by cases h.symm.trans he
  cases g with
  | waiting => rcases hmay with rfl | rfl <;> cases he
  | entered => rfl
  | cleared =>
    have haside : e.Aside := hmay
    exact (hnot haside.ingest).elim
  | past =>
    have haside : e.Aside := hmay
    exact (hnot haside.ingest).elim
  | leaving =>
    have hblind : e.Blind := hmay
    exact (hnot hblind.ingest).elim
  | refused failed pushed => exact (hnot hmay.1.ingest).elim

/-- A step into `ingest` is counted. -/
theorem clocked_step (hr : 0 < service.jobs.retention) {w w' : Pool service} {a : (system service).Act}
    (h : World.Reaches (fun w a => retained t j w a = true) (emptyPool service) w') (hs : w.step a = some w') :
    (if entersIngest t j a w' then 1 else 0) + clocked t j w.trace ≤ clocked t j w'.trace := by
  obtain ⟨evs, hevs⟩ := World.step_trace hs
  have hmono : clocked t j w.trace ≤ clocked t j w'.trace := hevs ▸ clocked_append evs
  split
  swap
  · omega
  rename_i henters
  obtain ⟨i, ch, p, e, k, rfl, ht, he⟩ : ∃ i ch p e k, a = .op i ch ∧ w'.threads i = some ⟨.execute t j p, .op e k⟩ ∧
      Op.isIngest e = true := by
    cases a with
    | op i ch =>
      simp only [entersIngest] at henters
      split at henters
      · rename_i t' j' p e k ht
        simp only [Bool.and_eq_true, beq_iff_eq] at henters
        obtain ⟨⟨rfl, rfl⟩, he⟩ := henters
        exact ⟨i, ch, p, e, k, rfl, ht, he⟩
      · cases henters
    | _ => cases henters
  obtain ⟨Γ, hΓ, hinv⟩ := attempts_of_reaches hr h
  obtain ⟨g, hg, hfollows⟩ := hΓ.of_thread ht
  obtain rfl := entered_of_may (Follows.op_iff.mp hfollows).1 he
  obtain ⟨-, v, rest, hlife, hclock, hrest⟩ := (hinv.lived i _ _ hg).sofar
  obtain ⟨e₀, r, htrace⟩ := World.step_goes_on hs ht
  rw [htrace, life_did] at hlife
  obtain ⟨rfl, rfl⟩ := List.cons.inj hlife
  have hany : (life i w.trace).any clock = false := List.any_eq_false.mpr fun u hu => by simp [hrest u hu]
  have hreads : readsClock t j (.did i (.execute t j p) e₀ r : (system service).Event) = true := by
    simp only [readsClock, beq_self_eq_true, Bool.true_and]
    exact hclock
  have hfirst : (readsClock t j (.did i (.execute t j p) e₀ r : (system service).Event) && !(life i w.trace).any clock) = true := by
    rw [hreads, hany]
    rfl
  rw [htrace, clocked, show Event.thread _ = i from rfl, if_pos hfirst]

/-- The bound, and what becomes of the deliveries beyond it. -/
theorem attempts_bounded (hr : 0 < service.jobs.retention) {as : List (system service).Act} {w : Pool service}
    (h : (emptyPool service).runIf (retained t j) as = some w) : Bounded t j as w := by
  have hreaches : World.Reaches (fun w a => retained t j w a = true) (emptyPool service) w :=
    World.reaches_of_runIf (fun _ _ h => h) h
  obtain ⟨Γ, hΓ, hinv⟩ := attempts_of_reaches hr hreaches
  obtain ⟨n, L, -, htokens⟩ := hinv.tokens
  refine ⟨?_, hinv.numbered, fun i hover => ?_⟩
  · have hcount : (emptyPool service).count (entersIngest t j) as + clocked t j (emptyPool service).trace ≤ clocked t j w.trace :=
      World.count_le (f := fun w => clocked t j w.trace) (fun _ _ h => h)
        (fun w a w' hw' hs => clocked_step hr hw' hs) as .refl h
    have hlimit := htokens.limit
    have hempty : clocked t j (emptyPool service).trace = 0 := rfl
    omega
  · cases hi : Γ i with
    | none =>
      obtain ⟨huntouched, hrecorded⟩ := hinv.gone i hi hover
      refine ⟨fun c e k ht => ?_, huntouched, hrecorded⟩
      cases (hΓ.none_iff.mpr hi).symm.trans ht
    | some x =>
      obtain ⟨c, g⟩ := x
      have hlived := hinv.lived i c g hi
      obtain ⟨failed, pushed, rfl⟩ := hlived.refused hover
      refine ⟨fun c' e k ht => ?_, hlived.sofar.1, fun t' j' p r hhead => ?_⟩
      · obtain ⟨g', hg', hfollows⟩ := hΓ.of_thread ht
        cases hi.symm.trans hg'
        exact ((Follows.op_iff.mp hfollows).1).1.ingest
      · obtain ⟨e, r', hv⟩ := hlived.own _ (List.mem_of_head? hhead)
        cases hv

end Run

/-! ### A delivery that was killed early -/

/-- No delivery after `max_attempts` others comes to `ingest`. -/
def NoneAfter (service : IngestionJobService) (t j : String) : Prop :=
  ∀ as w, (emptyPool service).runIf (retained t j) as = some w → ∀ i p e k, w.threads i = some ⟨.execute t j p, .op e k⟩ →
    Op.isIngest e = true → (started t j i w.trace : Int) < service.maxAttempts

namespace Rerun
open Redelivery (payload job upload)

/-- One attempt for every job. -/
def single : IngestionJobService := { Redelivery.service with maxAttempts := 1 }

def okay (i n : Nat) : List (system single).Act := List.replicate n (.op i .ok)

/-- A worker is lost before it has read the record; the message is handed out again. -/
def rerun : List (system single).Act :=
  [.start 0 (.submit "acme" upload none), .op 0 (.id payload), .op 0 .ok, .op 0 (.id job), .op 0 (.time 0),
    .op 0 (.time 0)] ++ okay 0 4 ++
  [.start 1 (.execute "acme" job payload), .kill 1, .start 2 (.execute "acme" job payload)] ++ okay 2 2 ++ [.op 2 (.time 1)] ++
  okay 2 3 ++ [.op 2 (.seconds 0)]

/-- The second worker is lost in `ingest`, and a third delivery comes. -/
def exhausted : List (system single).Act :=
  rerun ++ [.kill 2, .start 3 (.execute "acme" job payload)] ++ okay 3 2 ++ [.op 3 (.time 2)] ++ okay 3 4

/-- The pool after a run in which Redis keeps the job's keys. -/
def ran (as : List (system single).Act) : Option (Pool single) := (emptyPool single).runIf (retained "acme" job) as

/-- The second delivery waits for `ingest`. -/
def ingesting (w : Pool single) : Bool :=
  match w.threads 2 with
  | some ⟨.execute t j _, .op e _⟩ => t == "acme" && j == job && Op.isIngest e
  | _ => false

theorem second_ingests : (ran rerun).any (fun w => ingesting w && started "acme" job 2 w.trace == 1) = true := by decide +kernel

theorem third_fails : ((ran exhausted).bind fun w => w.state.record? "acme" job).map IngestJob.status = some .failed := by
  decide +kernel

theorem exhausted_bounded : ∃ w, ran exhausted = some w ∧ Bounded "acme" job exhausted w := by
  obtain ⟨w, hw, -⟩ := Option.bind_eq_some_iff.mp (Option.map_eq_some_iff.mp third_fails).choose_spec.1
  exact ⟨w, hw, attempts_bounded (by decide) hw⟩

/-- One delivery was started before, which was lost before it was counted. -/
theorem not_noneAfter : ¬NoneAfter single "acme" job := by
  intro h
  obtain ⟨w, hw, hfacts⟩ := (Option.any_eq_true _ _).mp second_ingests
  obtain ⟨hingesting, hstarted⟩ := Bool.and_eq_true_iff.mp hfacts
  have hstarted : started "acme" job 2 w.trace = 1 := by simpa using hstarted
  unfold ingesting at hingesting
  split at hingesting
  · rename_i t j p e k ht
    simp only [Bool.and_eq_true, beq_iff_eq] at hingesting
    obtain ⟨⟨rfl, rfl⟩, he⟩ := hingesting
    have hlt := h rerun w hw 2 p e k ht he
    rw [hstarted] at hlt
    exact absurd hlt (by decide)
  · cases hingesting

end Rerun
end NexusGate.Workers
