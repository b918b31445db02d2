import Mathlib.Data.List.Induction
import NexusGate.Theorems.Gateway.RolloutMachine

/-! # A canary that fails too often

The counters of a canary are looked at only when one of its own requests has failed. It is withdrawn as soon as
they are over what it is allowed exactly where such a failure is what takes them over. -/

namespace NexusGate.Gateway.Rollout
open Async Redis

/-- An outcome that `record` is told of, of a request that this table served under its version. -/
structure Told where
  name : String
  ok : Bool
  occasion : Occasion

/-- The call of `record` that tells the manager an outcome. -/
def Told.call (m : RolloutManager) (version : String) (t : Told) : Call × Occasion :=
  (.record m ⟨t.name, version⟩ t.ok, t.occasion)

/-- So many errors in so many requests are more than a canary is allowed. -/
def RolloutSettings.over (settings : RolloutSettings) (requests errors : Int) : Bool :=
  settings.minRequests ≤ requests && settings.maxErrorRate < errors / requests

/-- A counter as it is stored. -/
def State.count (s : State) (field : String) : Int :=
  match (hash? 0 s.store statsKey).bind fun counts => counts.lookup field with
  | some (.int n) => n
  | _ => 0

/-- The canary of this version is stored with weight 0 and a time at which it was rolled back. -/
def State.withdrawn (s : State) (version : String) : Bool :=
  match s.stored with
  | some (.str (.canary state _)) => state.version == version && state.weight == 0 && state.rolledBackAt.isSome
  | _ => false

/-- A canary that is put in front of a share of the requests. -/
structure Publication where
  configText : String
  weight : Weight
  note : Option String := none
  occasion : Occasion

/-- The call of `publish` that puts a candidate up. -/
def Publication.call (m : RolloutManager) (p : Publication) : Call × Occasion :=
  (.publish m p.configText p.weight.val p.note, p.occasion)

/-- Once the canary is published, whenever an outcome has been recorded and its counters are over what it is
    allowed, it is withdrawn. -/
def Withdraws (m : RolloutManager) (s : State) (p : Publication) (version : String) (outcomes : List Told) : Prop :=
  ∀ before t after, outcomes = before ++ t :: after →
    let s' := (performAll (p.call m :: (before ++ [t]).map (Told.call m version)) s).2
    m.settings.over (s'.count (RolloutManager.requestsField version)) (s'.count (RolloutManager.errorsField version)) = true →
      s'.withdrawn version = true

/-- The errors among the outcomes. -/
def errorsIn (outcomes : List Told) : Nat := outcomes.countP fun t => !t.ok

/-- The outcome that takes the counters over what the canary is allowed is a failure of one of its own requests,
    and it takes requests at all. -/
def TakenOverByFailure (m : RolloutManager) (weight : Weight) (outcomes : List Told) : Prop :=
  ∀ before t after, outcomes = before ++ t :: after →
    m.settings.over (before ++ [t]).length (errorsIn (before ++ [t])) = true →
    (∀ earlier u later, before = earlier ++ u :: later →
      m.settings.over (earlier ++ [u]).length (errorsIn (earlier ++ [u])) = false) →
    0 < weight.val ∧ t.name = canaryName ∧ t.ok = false

/-! ### One outcome -/

/-- The reason that is noted with a rollback. -/
def RolloutManager.reason (m : RolloutManager) (requests errors : Int) : String :=
  "error rate " ++ percent (errors / requests) ++ " over " ++ toString requests ++
    " requests, above the " ++ percent m.settings.maxErrorRate ++ " the canary is allowed"

/-- The published canary and what has been counted of it. -/
structure Score where
  canary : Canary
  requests : Nat := 0
  errors : Nat := 0

/-- An outcome is counted, and a failure of the canary is judged on. -/
def Score.tell (m : RolloutManager) (x : Score) (t : Told) : Score :=
  let requests := x.requests + 1
  let errors := x.errors + if t.ok then 0 else 1
  { canary :=
      if t.name = canaryName ∧ t.ok = false ∧ x.canary.state.active = true ∧ m.settings.over requests errors = true then
        Machine.rollBack x.canary (m.reason requests errors) t.occasion.utcnow
      else x.canary
    requests, errors }

/-- A counter that has come to `n`. -/
def Counted (counts : AList fun _ : String => Blob) (field : String) (n : Nat) : Prop :=
  (counts.lookup field = none ∧ n = 0) ∨ counts.lookup field = some (.int n)

/-- The state in which the manager and Redis agree on a score. -/
structure Scored (m : RolloutManager) (s : State) (stable : String × RoutingConfig) (x : Score) : Prop where
  mirrors : Mirrors m s { stable, canary := some x.canary }
  counts : ∃ counts, hash? 0 s.store statsKey = some counts ∧
    Counted counts (RolloutManager.requestsField x.canary.version) x.requests ∧
    Counted counts (RolloutManager.errorsField x.canary.version) x.errors

theorem requestsField_ne_errorsField (version : String) :
    RolloutManager.requestsField version ≠ RolloutManager.errorsField version := fun h =>
  absurd ((String.append_right_inj version).mp h) (by decide)

theorem Counted.incr {store : Store Blob} {counts : AList fun _ : String => Blob} {field : String} {n : Nat}
    (hcounts : hash? 0 store statsKey = some counts) (h : Counted counts field n) :
    Reply.failed (Redis.exec 0 (.hincrby statsKey field 1) store).1 = false ∧
      hash? 0 (Redis.exec 0 (.hincrby statsKey field 1) store).2 statsKey = some (counts.insert field (.int (n + 1))) := by
  have hcount : (counts.lookup field = none ∧ (n : Int) = 0) ∨
      ∃ b, counts.lookup field = some b ∧ Payload.int? b = some (n : Int) := by
    rcases h with ⟨hn, rfl⟩ | hn
    · exact Or.inl ⟨hn, rfl⟩
    · exact Or.inr ⟨_, hn, rfl⟩
  obtain ⟨hr, hs⟩ := exec_hincrby_hash (n := 1) hcounts hcount
  exact ⟨by rw [hr]; rfl, hs⟩

theorem Counted.insert {counts : AList fun _ : String => Blob} {field : String} {n : Nat} :
    Counted (counts.insert field (.int (n + 1))) field (n + 1) := by
  refine Or.inr ?_
  rw [AList.lookup_insert]
  rfl

theorem Counted.other {counts : AList fun _ : String => Blob} {field field' : String} {n : Nat} {b : Blob}
    (hne : field ≠ field') (h : Counted counts field n) : Counted (counts.insert field' b) field n := by
  unfold Counted
  rwa [AList.lookup_insert_ne hne]

section Record
variable {m : RolloutManager} {a : Alone} {stable : String × RoutingConfig} {x : Score}

/-- Both counters, or the first. -/
theorem counts_ends {o : Occasion} (ho : o.Reachable) (h : Scored m a.toState stable x) (ok : Bool) :
    Ends (o.answer m.replica) (pipeline ([.hincrby statsKey (RolloutManager.requestsField x.canary.version) 1] ++
      if ok then [] else [.hincrby statsKey (RolloutManager.errorsField x.canary.version) 1])) a fun r a' =>
        r = .ok () ∧ Scored m a'.toState stable
          { x with requests := x.requests + 1, errors := x.errors + if ok then 0 else 1 } := by
  obtain ⟨counts, hcounts, hrequests, herrors⟩ := h.counts
  obtain ⟨hr₁, hleft₁⟩ := hrequests.incr hcounts
  have hstores := h.mirrors.stores.count (c := .hincrby statsKey _ 1) rfl (by rw [hleft₁]; rfl)
  have hne := requestsField_ne_errorsField x.canary.version
  refine Occasion.pipeline_cons_ok (ho _) hr₁ fun a₁ hs₁ hc₁ _ => ?_
  cases ok with
  | true =>
    refine .ret ⟨rfl, ⟨hs₁ ▸ hstores, hc₁ ▸ h.mirrors.cache⟩, ?_⟩
    rw [hs₁]
    exact ⟨_, hleft₁, .insert, herrors.other hne.symm⟩
  | false =>
    obtain ⟨hr₂, hleft₂⟩ := (herrors.other hne.symm).incr hleft₁
    refine Occasion.pipeline_cons_ok (ho _) (by rw [hs₁]; exact hr₂) fun a₂ hs₂ hc₂ _ => ?_
    refine .ret ⟨rfl, ⟨?_, (hc₂.trans hc₁) ▸ h.mirrors.cache⟩, ?_⟩
    · rw [hs₂, hs₁]
      exact hstores.count (c := .hincrby statsKey _ 1) rfl (by rw [hleft₂]; rfl)
    · rw [hs₂, hs₁]
      exact ⟨_, hleft₂, Counted.insert.other hne, .insert⟩

theorem stats_ends {o : Occasion} (ho : o.Reachable) (h : Scored m a.toState stable x) :
    Ends (o.answer m.replica) (RolloutManager.stats x.canary.version) a fun r a' =>
      r = .ok ((x.requests : Int), (x.errors : Int)) ∧ Scored m a'.toState stable x := by
  obtain ⟨counts, hcounts, hrequests, herrors⟩ := h.counts
  have hmget := exec_hmget_hash [RolloutManager.requestsField x.canary.version, RolloutManager.errorsField x.canary.version] hcounts
  have hcounter : ∀ {field n}, Counted counts field n → RolloutManager.counter (counts.lookup field) = .ret (n : Int) := by
    rintro field n (⟨hn, rfl⟩ | hn)
    · rw [hn]
      rfl
    · rw [hn]
      rfl
  refine Ends.bind_iff.mpr (Occasion.redis_ok (ho _) (by rw [hmget]; rfl) fun a₁ hs₁ hc₁ _ => ?_)
  rw [hmget] at hs₁ ⊢
  simp only [List.map_cons, List.map_nil, hcounter hrequests, hcounter herrors]
  exact .ret ⟨rfl, ⟨hs₁ ▸ h.mirrors.stores, hc₁ ▸ h.mirrors.cache⟩, hs₁ ▸ h.counts⟩

/-- A failure of the canary is judged on what has been counted. -/
theorem maybeRollBack_ends (hdump : m.format.RoundTrips) {o : Occasion} (ho : o.Reachable) (h : Scored m a.toState stable x)
    (hpos : 0 < x.requests) :
    Ends (o.answer m.replica) (m.maybeRollBack x.canary.version) a fun r a' => r = .ok () ∧ Scored m a'.toState stable
      { x with canary := if x.canary.state.active = true ∧ m.settings.over x.requests x.errors = true then
          Machine.rollBack x.canary (m.reason x.requests x.errors) o.utcnow else x.canary } := by
  refine Ends.bind_iff.mpr ((canary_ends ho h.mirrors).mono fun r a₁ h₁ => ?_)
  obtain ⟨hm₁, hs₁, rfl⟩ := h₁
  have h₁ : Scored m a₁.toState stable x := ⟨hm₁, hs₁ ▸ h.counts⟩
  show Ends _ (ite _ _ _) _ _
  split
  · rename_i hinactive
    have hinactive : ¬x.canary.state.active = true := by
      rcases hinactive with hne | hinactive
      · exact absurd rfl hne
      · rw [show x.canary.state.active = false from hinactive]
        exact Bool.false_ne_true
    rw [if_neg fun hc => hinactive hc.1]
    exact .ret ⟨rfl, h₁⟩
  · rename_i hactive
    have hactive : x.canary.state.active = true := Bool.not_eq_false _ ▸ (not_or.mp hactive).2
    refine Ends.bind_iff.mpr ((stats_ends ho h₁).mono fun r a₂ h₂ => ?_)
    obtain ⟨rfl, h₂⟩ := h₂
    show Ends _ (ite _ _ _) _ _
    split
    · rename_i hfew
      have hnot : m.settings.over x.requests x.errors = false := by
        simp only [RolloutSettings.over, Bool.and_eq_false_imp, decide_eq_true_eq]
        omega
      rw [if_neg fun hc => by rw [hnot] at hc; exact Bool.false_ne_true hc.2]
      exact .ret ⟨rfl, h₂⟩
    · rename_i hmany
      show Ends _ (ite _ _ _) _ _
      rw [if_neg (by omega)]
      show Ends _ (ite _ _ _) _ _
      split
      · rename_i hlow
        have hnot : m.settings.over x.requests x.errors = false := by
          simp only [RolloutSettings.over, Bool.and_eq_false_imp, decide_eq_true_eq, decide_eq_false_iff_not, not_lt]
          exact fun _ => hlow
        rw [if_neg fun hc => by rw [hnot] at hc; exact Bool.false_ne_true hc.2]
        exact .ret ⟨rfl, h₂⟩
      · rename_i hhigh
        have hover : m.settings.over x.requests x.errors = true := by
          simp only [RolloutSettings.over, Bool.and_eq_true, decide_eq_true_eq]
          exact ⟨not_lt.mp hmany, not_le.mp hhigh⟩
        rw [if_pos ⟨hactive, hover⟩]
        refine Ends.bind_iff.mpr ((rollBack_ends hdump ho h₂.mirrors).mono fun r a₃ h₃ => ?_)
        obtain ⟨rfl, hs₃, hm₃⟩ := h₃
        obtain ⟨counts, hcounts, hrest⟩ := h₂.counts
        exact .ret ⟨rfl, hm₃, counts, (hash?_congr hs₃).trans hcounts, hrest⟩

theorem record_ends (hdump : m.format.RoundTrips) {t : Told} (ho : t.occasion.Reachable) (h : Scored m a.toState stable x) :
    Ends (t.occasion.answer m.replica) (m.record ⟨t.name, x.canary.version⟩ t.ok) a fun r a' =>
      r = .ok () ∧ Scored m a'.toState stable (x.tell m t) := by
  refine Ends.bind_iff.mpr (.attempt ((counts_ends ho h t.ok).mono fun r a₁ h₁ => ?_))
  obtain ⟨rfl, h₁⟩ := h₁
  show Ends _ (ite _ _ _) _ _
  split
  · rename_i hcharged
    have hname : t.name = canaryName := hcharged.1
    refine (maybeRollBack_ends hdump ho h₁ (Nat.succ_pos _)).mono fun r a₂ h₂ => ⟨h₂.1, ?_⟩
    simpa only [Score.tell, hname, hcharged.2, true_and] using h₂.2
  · rename_i hcharged
    refine .ret ⟨rfl, ?_⟩
    rw [Score.tell, if_neg fun hc => hcharged ⟨hc.1, hc.2.1⟩]
    exact h₁

end Record

/-! ### All of them -/

section Run
variable {m : RolloutManager} {s : State} {M : Machine} {stable : String × RoutingConfig} {x : Score}

/-- The score of a canary that has just been published. -/
def Publication.score (m : RolloutManager) (p : Publication) (table : RoutingConfig) : Score where
  canary := Machine.publish table (m.format.fingerprint table) p.weight p.note p.occasion.utcnow

theorem score_active {p : Publication} {table : RoutingConfig} :
    (p.score m table).canary.state.active = true ↔ 0 < p.weight.val := by
  rw [CanaryState.active, Bool.and_eq_true, decide_eq_true_eq]
  exact ⟨fun h => h.1, fun h => ⟨h, rfl⟩⟩

theorem publication_scored (hdump : m.format.RoundTrips) (h : Mirrors m s M) {p : Publication} (ho : p.occasion.Reachable)
    {table : RoutingConfig} (ht : m.format.fromText p.configText = some table) :
    Scored m ((p.call m).1.perform p.occasion s).2 M.stable (p.score m table) := by
  have hends : Ends (p.occasion.answer m.replica) ((p.call m).1.body) { toState := s } fun _ a =>
      Scored m a.toState M.stable (p.score m table) := by
    refine Ends.bind_iff.mpr ((publish_ends hdump ho h ht).mono fun r a h => ?_)
    obtain ⟨rfl, hm, counts, hcounts, hrequests, herrors⟩ := h
    exact .ret ⟨hm, counts, hcounts, Or.inl ⟨hrequests, rfl⟩, Or.inl ⟨herrors, rfl⟩⟩
  exact hends

theorem tell_version {t : Told} : (x.tell m t).canary.version = x.canary.version :=
  (apply_ite Canary.version _ _ _).trans (ite_self _)

theorem told_version {outcomes : List Told} :
    (outcomes.foldl (Score.tell m) x).canary.version = x.canary.version := by
  induction outcomes generalizing x with
  | nil => rfl
  | cons t outcomes ih => exact ih.trans tell_version

theorem told_scored (hdump : m.format.RoundTrips) : ∀ {outcomes : List Told} {s : State} {x : Score},
    (∀ t ∈ outcomes, t.occasion.Reachable) → Scored m s stable x →
    Scored m (performAll (outcomes.map (Told.call m x.canary.version)) s).2 stable (outcomes.foldl (Score.tell m) x)
  | [], _, _, _, h => h
  | t :: outcomes, s, x, ho, h => by
    have hends : Ends (t.occasion.answer m.replica) ((t.call m x.canary.version).1.body) { toState := s } fun _ a =>
        Scored m a.toState stable (x.tell m t) := by
      refine Ends.bind_iff.mpr ((record_ends hdump (ho t List.mem_cons_self) h).mono fun r a h => ?_)
      obtain ⟨rfl, h⟩ := h
      exact .ret h
    have htold := told_scored hdump (fun u hu => ho u (List.mem_cons_of_mem t hu)) hends
    rw [tell_version] at htold
    exact htold

theorem Scored.count (h : Scored m s stable x) :
    s.count (RolloutManager.requestsField x.canary.version) = x.requests ∧
      s.count (RolloutManager.errorsField x.canary.version) = x.errors := by
  obtain ⟨counts, hcounts, hrequests, herrors⟩ := h.counts
  have hcount : ∀ {field n}, Counted counts field n → s.count field = n := by
    rintro field n (⟨hn, rfl⟩ | hn) <;> simp [State.count, hcounts, hn]
  exact ⟨hcount hrequests, hcount herrors⟩

theorem Scored.withdrawn_iff (h : Scored m s stable x) :
    s.withdrawn x.canary.version = true ↔ x.canary.rolledBackAt.isSome = true := by
  obtain ⟨text, hv, -⟩ := h.mirrors.stores.canary
  have hstored : s.stored = some (.str (.canary x.canary.state text)) := hv
  simp only [State.withdrawn, hstored, Canary.state, beq_self_eq_true, Bool.true_and, Bool.and_eq_true, beq_iff_eq,
    and_iff_right_iff_imp]
  exact x.canary.withdrawn

/-! ### Where the counters go over -/

/-- The counters have not been over what the canary is allowed. -/
def NotOverYet (m : RolloutManager) (outcomes : List Told) : Prop :=
  ∀ earlier t later, outcomes = earlier ++ t :: later →
    m.settings.over (earlier ++ [t]).length (errorsIn (earlier ++ [t])) = false

theorem notOverYet_snoc {outcomes : List Told} {t : Told} (h : NotOverYet m outcomes)
    (ht : m.settings.over (outcomes ++ [t]).length (errorsIn (outcomes ++ [t])) = false) : NotOverYet m (outcomes ++ [t]) := by
  intro earlier u later heq
  rcases List.eq_nil_or_concat later with rfl | ⟨later, v, rfl⟩
  · rwa [← heq]
  · have heq : outcomes ++ [t] = (earlier ++ u :: later) ++ [v] := by simpa using heq
    exact h earlier u later (List.append_inj' heq rfl).1

theorem score_counts {outcomes : List Told} : (outcomes.foldl (Score.tell m) x).requests = x.requests + outcomes.length ∧
    (outcomes.foldl (Score.tell m) x).errors = x.errors + errorsIn outcomes := by
  induction outcomes generalizing x with
  | nil => exact ⟨rfl, rfl⟩
  | cons t outcomes ih =>
    obtain ⟨hrequests, herrors⟩ := @ih (x.tell m t)
    refine ⟨hrequests.trans ?_, herrors.trans ?_⟩
    · rw [List.length_cons, Score.tell]
      dsimp only
      omega
    · rw [errorsIn, errorsIn, List.countP_cons, Score.tell]
      dsimp only
      cases t.ok
      · simp
        omega
      · simp

/-- What the next outcome does to a canary, in terms of all the outcomes so far. -/
theorem tell_next {outcomes : List Told} {t : Told} (hx : x.requests = 0 ∧ x.errors = 0) :
    ∃ reason, ((outcomes ++ [t]).foldl (Score.tell m) x).canary =
      let c := (outcomes.foldl (Score.tell m) x).canary
      if t.name = canaryName ∧ t.ok = false ∧ c.state.active = true ∧
          m.settings.over (outcomes ++ [t]).length (errorsIn (outcomes ++ [t])) = true then
        Machine.rollBack c reason t.occasion.utcnow
      else c := by
  obtain ⟨hrequests, herrors⟩ := @score_counts m x (outcomes ++ [t])
  rw [hx.1, Nat.zero_add] at hrequests
  rw [hx.2, Nat.zero_add] at herrors
  rw [List.foldl_append, List.foldl_cons, List.foldl_nil] at hrequests herrors ⊢
  refine ⟨m.reason (outcomes ++ [t]).length (errorsIn (outcomes ++ [t])), ?_⟩
  rw [← hrequests, ← herrors]
  rfl

theorem canary_unchanged (hx : x.requests = 0 ∧ x.errors = 0) {outcomes : List Told} (h : NotOverYet m outcomes) :
    (outcomes.foldl (Score.tell m) x).canary = x.canary := by
  induction outcomes using List.reverseRecOn with
  | nil => rfl
  | append_singleton outcomes t ih =>
    obtain ⟨reason, hnext⟩ := @tell_next m x outcomes t hx
    have hnot : m.settings.over (outcomes ++ [t]).length (errorsIn (outcomes ++ [t])) = false := h outcomes t [] rfl
    rw [hnext]
    dsimp only
    rw [if_neg fun hc => by rw [hnot] at hc; exact Bool.false_ne_true hc.2.2.2]
    refine ih fun earlier u later heq => h earlier u (later ++ [t]) ?_
    rw [heq, List.append_assoc, List.cons_append]

/-- A canary that was rolled back stays so. -/
theorem rolledBack_stays (hx : x.requests = 0 ∧ x.errors = 0) {outcomes : List Told} {t : Told}
    (h : (outcomes.foldl (Score.tell m) x).canary.rolledBackAt.isSome = true) :
    ((outcomes ++ [t]).foldl (Score.tell m) x).canary.rolledBackAt.isSome = true := by
  obtain ⟨reason, hnext⟩ := @tell_next m x outcomes t hx
  rw [hnext]
  dsimp only
  split
  · rfl
  · exact h

end Run

/-- What the property says of the score. -/
theorem withdraws_iff_rolledBack {m : RolloutManager} (hdump : m.format.RoundTrips) {s : State} {M : Machine}
    (h : Mirrors m s M) {p : Publication} {table : RoutingConfig} (ht : m.format.fromText p.configText = some table)
    {outcomes : List Told} (hp : p.occasion.Reachable) (ho : ∀ t ∈ outcomes, t.occasion.Reachable) :
    Withdraws m s p (m.format.fingerprint table) outcomes ↔ ∀ before t after, outcomes = before ++ t :: after →
      m.settings.over (before ++ [t]).length (errorsIn (before ++ [t])) = true →
      ((before ++ [t]).foldl (Score.tell m) (p.score m table)).canary.rolledBackAt.isSome = true := by
  refine forall_congr' fun before => forall_congr' fun t => forall_congr' fun after => forall_congr' fun heq => ?_
  have hscored : Scored m (performAll (p.call m :: (before ++ [t]).map (Told.call m (m.format.fingerprint table))) s).2 M.stable
      ((before ++ [t]).foldl (Score.tell m) (p.score m table)) := by
    refine told_scored hdump (fun u hu => ho u ?_) (publication_scored hdump h hp ht)
    rw [heq]
    rcases List.mem_append.mp hu with hu | hu
    · exact List.mem_append_left _ hu
    · exact List.mem_append_right _ (List.mem_cons.mpr (Or.inl (List.mem_singleton.mp hu)))
  have hversion : ((before ++ [t]).foldl (Score.tell m) (p.score m table)).canary.version = m.format.fingerprint table :=
    told_version
  obtain ⟨hrequests, herrors⟩ := hscored.count
  obtain ⟨hlength, hcount⟩ := @score_counts m (p.score m table) (before ++ [t])
  have hwithdrawn := hscored.withdrawn_iff
  rw [hversion] at hrequests herrors hwithdrawn
  rw [hlength, show (p.score m table).requests = 0 from rfl, Nat.zero_add] at hrequests
  rw [hcount, show (p.score m table).errors = 0 from rfl, Nat.zero_add] at herrors
  dsimp only
  rw [hrequests, herrors, hwithdrawn]

/-- A canary is withdrawn whenever its counters are over what it is allowed if and only if a failure of its own
    takes them there. -/
theorem withdraws_iff {m : RolloutManager} (hdump : m.format.RoundTrips) {s : State} {M : Machine} (h : Mirrors m s M)
    {p : Publication} {table : RoutingConfig} (ht : m.format.fromText p.configText = some table) {outcomes : List Told}
    (hp : p.occasion.Reachable) (ho : ∀ t ∈ outcomes, t.occasion.Reachable) :
    Withdraws m s p (m.format.fingerprint table) outcomes ↔ TakenOverByFailure m p.weight outcomes := by
  have hstart : (p.score m table).requests = 0 ∧ (p.score m table).errors = 0 := ⟨rfl, rfl⟩
  rw [withdraws_iff_rolledBack hdump h ht hp ho]
  constructor
  · intro hwithdraws before t after heq hover hyet
    have hrolled := hwithdraws before t after heq hover
    obtain ⟨reason, hnext⟩ := @tell_next m _ before t hstart
    rw [hnext, canary_unchanged hstart hyet] at hrolled
    dsimp only at hrolled
    split at hrolled
    · rename_i hcharged
      exact ⟨score_active.mp hcharged.2.2.1, hcharged.1, hcharged.2.1⟩
    · cases hrolled
  · intro hcharged
    -- By induction on the outcomes so far: the counters have not been over, or the canary is rolled back.
    suffices hall : ∀ sofar rest, outcomes = sofar ++ rest → NotOverYet m sofar ∨
        (sofar.foldl (Score.tell m) (p.score m table)).canary.rolledBackAt.isSome = true by
      intro before t after heq hover
      rcases hall (before ++ [t]) after (by rw [heq, List.append_assoc, List.singleton_append]) with hnot | hrolled
      · rw [hnot before t [] rfl] at hover
        cases hover
      · exact hrolled
    intro sofar
    induction sofar using List.reverseRecOn with
    | nil => exact fun _ _ => Or.inl fun earlier t later heq => by cases earlier <;> cases heq
    | append_singleton sofar t ih =>
      intro rest heq
      have heq : outcomes = sofar ++ t :: rest := by rw [heq, List.append_assoc, List.singleton_append]
      rcases ih (t :: rest) heq with hyet | hrolled
      · cases hover : m.settings.over (sofar ++ [t]).length (errorsIn (sofar ++ [t])) with
        | false => exact Or.inl (notOverYet_snoc hyet hover)
        | true =>
          obtain ⟨hweight, hname, hok⟩ := hcharged sofar t rest heq hover hyet
          obtain ⟨reason, hnext⟩ := @tell_next m _ sofar t hstart
          rw [hnext, canary_unchanged hstart hyet]
          dsimp only
          rw [if_pos ⟨hname, hok, score_active.mpr hweight, hover⟩]
          exact Or.inr rfl
      · exact Or.inr (rolledBack_stays hstart hrolled)

/-! ### A success that takes the counters over -/

namespace LateSuccess
open StaleReplica (text table format versionA versionB)
open OneManager (occasion half format_roundTrips isA_a fromText_b)

/-- With the settings the gateway starts with: 20 requests, and a tenth of them may fail. -/
def manager : RolloutManager where
  replica := 0
  format := format
  fallback := table "a"

def publication : Publication where
  configText := text "b"
  weight := half
  occasion := occasion

def told (ok : Bool) : Told where
  name := canaryName
  ok := ok
  occasion := occasion

/-- Three requests fail first, and all the others succeed. -/
def before : List Told := List.replicate 3 (told false) ++ List.replicate 16 (told true)

theorem over_late : let s' := (performAll (publication.call manager :: (before ++ [told true]).map (Told.call manager versionB)) {}).2
    manager.settings.over (s'.count (RolloutManager.requestsField versionB)) (s'.count (RolloutManager.errorsField versionB)) = true ∧
      s'.withdrawn versionB = false := by
  decide +kernel

/-- The canary goes on with three errors in twenty requests. -/
theorem not_withdraws : ¬Withdraws manager {} publication versionB (before ++ [told true]) := by
  intro h
  have hwithdrawn := h before (told true) [] rfl over_late.1
  rw [over_late.2] at hwithdrawn
  cases hwithdrawn

/-- Nothing but the last failure takes the counters over. -/
theorem takenOver : TakenOverByFailure manager half (before ++ [told false]) := by
  intro earlier t later heq hover _
  have hlater : later = [] := by
    have hlength := congrArg List.length heq
    rw [RolloutSettings.over, Bool.and_eq_true, decide_eq_true_eq] at hover
    have hrequests : (20 : Int) ≤ (earlier ++ [t]).length := hover.1
    refine List.length_eq_zero_iff.mp ?_
    simp only [before, List.length_append, List.length_replicate, List.length_cons, List.length_nil] at hlength hrequests
    omega
  subst hlater
  obtain ⟨rfl, hlast⟩ := List.append_inj' heq rfl
  cases hlast
  exact ⟨by decide +kernel, rfl, rfl⟩

/-- A fourth failure withdraws the canary. -/
theorem withdraws_here : Withdraws manager {} publication (format.fingerprint (table "b")) (before ++ [told false]) := by
  refine (withdraws_iff (m := manager) format_roundTrips (M := { stable := (versionA, table "a") })
    ⟨⟨Or.inl ⟨rfl, ?_⟩, rfl, rfl⟩, Or.inl rfl⟩ ?_ (fun _ => rfl) fun t ht n => ?_).mpr takenOver
  · simp only [manager, format, isA_a, if_true]
  · exact fromText_b
  · simp only [before, List.mem_append, List.mem_replicate, List.mem_singleton] at ht
    rcases ht with (⟨-, rfl⟩ | ⟨-, rfl⟩) | rfl <;> rfl

end LateSuccess
end NexusGate.Gateway.Rollout
