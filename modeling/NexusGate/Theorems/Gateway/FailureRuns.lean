import Mathlib.Tactic.Linarith
import NexusGate.Gateway.Fleet
import NexusGate.Theorems.Gateway.BreakerLaw
import NexusGate.Theorems.Gateway.Freshness

/-! # What opens a closed circuit

The pooled count of a deployment never exceeds the current run of its failures. So where the own count of a
replica does not exceed the pooled one, its circuit opens on a current run only. -/

namespace NexusGate.Gateway.Router
open Async Redis

/-! ### Redis within reach, and nobody else about -/

/-- Nothing happens but what the calls do. -/
structure Alone (s : Scene) : Prop where
  others : s.others = fun _ => id
  remote : s.remote = fun _ => id

theorem ask_alone {s : Scene} (h : Alone s) {replica : Nat} {name : String} {m : CircuitBreaker.Method} :
    (s.ask replica name m).1 = ((s.breakers replica name).call s.ticks.head s.ticks.tail.head m).1 ∧
      (s.ask replica name m).2 = { s with
        toState := s.setBreaker replica name ((s.breakers replica name).call s.ticks.head s.ticks.tail.head m).2
        ticks := s.ticks.tail.tail } := by
  obtain ⟨state, ticks, monotonic, answers, others, remote, calls, latencyMs⟩ := s
  obtain ⟨rfl, -⟩ := h
  exact ⟨rfl, rfl⟩

/-- The same surroundings with another store. -/
def Scene.withStore (s : Scene) (store : Store Int) : Scene := { s with store }

theorem Alone.withStore {s : Scene} (h : Alone s) {store : Store Int} : Alone (s.withStore store) := ⟨h.others, h.remote⟩

/-- Commands have been carried out one after the other; the answers are known if none of them is an error. -/
structure Piped (s : Scene) (cs : List (Cmd Int)) (r : Except Exn (List (Redis.Reply Int))) (s' : Scene) : Prop where
  left : s' = s.withStore (execAll s.time cs s.store).2
  isException : ∀ x, r = .error x → x.isException = true
  replies : (∀ reply ∈ (execAll s.time cs s.store).1, reply ≠ .error) → r = .ok (execAll s.time cs s.store).1

theorem redis_alone {s : Scene} (h : Alone s) {c : Cmd Int} :
    (s.redis c).2 = s.withStore (Redis.exec s.time c s.store).2 ∧
      (∀ x, (s.redis c).1 = .error x → x.isException = true ∧ (Redis.exec s.time c s.store).1 = .error) ∧
      ∀ reply, (s.redis c).1 = .ok reply → reply = (Redis.exec s.time c s.store).1 := by
  obtain ⟨state, ticks, monotonic, answers, others, remote, calls, latencyMs⟩ := s
  obtain ⟨-, rfl⟩ := h
  simp only [Scene.redis, State.redis, Stream'.head, Stream'.get, id, Scene.withStore]
  cases hexec : Redis.exec state.time c state.store with
  | mk r store =>
    cases r with
    | error => exact ⟨rfl, fun x hx => ⟨by cases hx; rfl, rfl⟩, fun _ hx => (by cases hx)⟩
    | _ => exact ⟨rfl, fun x hx => (by cases hx), fun _ hx => by cases hx; rfl⟩

theorem pipeline_alone : ∀ {cs : List (Cmd Int)} {s : Scene}, Alone s →
    Ends (answer true) (pipeline cs) s (Piped s cs)
  | [], _, _ => .ret ⟨rfl, nofun, fun _ => rfl⟩
  | c :: cs, s, h => by
    obtain ⟨hs, hx, hok⟩ := @redis_alone s h c
    have first : Ends (answer true) (redis c).attempt s fun r s' => r = .ok (s.redis c).1 ∧
        s' = s.withStore (Redis.exec s.time c s.store).2 := .attempt (.call ⟨rfl, hs⟩)
    refine first.bind (fun o s₁ ho => ?_) fun _ _ hx => by cases hx.1
    obtain ⟨ho, rfl⟩ := ho
    cases ho
    have others : Ends (answer true) (pipeline cs).attempt (s.withStore (Redis.exec s.time c s.store).2) fun r s' =>
        ∃ o, r = .ok o ∧ Piped (s.withStore (Redis.exec s.time c s.store).2) cs o s' :=
      .attempt ((pipeline_alone h.withStore).mono fun r _ hr => ⟨r, rfl, hr⟩)
    refine others.bind (fun os s₂ hos => ?_) fun _ _ hx => by obtain ⟨_, hx, -⟩ := hx; cases hx
    obtain ⟨os', hos, hs₂, hxs, hoks⟩ := hos
    cases hos
    cases ho : (s.redis c).1 with
    | error x => exact .throw ⟨hs₂, fun _ h => by cases h; exact (hx x ho).1, fun hall =>
        absurd (hx x ho).2 (hall _ List.mem_cons_self)⟩
    | ok reply =>
      cases os with
      | error x =>
        refine .throw ⟨hs₂, fun _ h => by cases h; exact hxs x rfl, fun hall => ?_⟩
        cases hoks fun r hr => hall r (List.mem_cons_of_mem _ hr)
      | ok replies =>
        refine .ret ⟨hs₂, nofun, fun hall => ?_⟩
        rw [hok reply ho, Except.ok.inj (hoks fun r hr => hall r (List.mem_cons_of_mem _ hr))]
        rfl

theorem caught_pipeline_alone {cs : List (Cmd Int)} {s : Scene} (h : Alone s) :
    Ends (answer true) (caught (pipeline cs)) s fun r s' => ∃ o, r = .ok o ∧ Piped s cs o s' :=
  ends_caught ((pipeline_alone h).mono fun r _ hr => ⟨hr.isException, r, rfl, hr⟩)

/-! ### The pooled count -/

/-- The counts of the other deployments are as they were. -/
def SparesOthers (name : String) (store store' : Store Int) : Prop :=
  ∀ m, m ≠ name → store'.lookup (failsKey m) = store.lookup (failsKey m)

section
variable {cluster : ClusterBreakers} {replica : Nat} {name : String} {s : Scene}

theorem publishOpen_alone (h : Alone s) : Ends (answer true) (cluster.publishOpen name) s fun r s' => r = .ok () ∧
    ∃ store, s' = s.withStore store ∧ store.lookup (failsKey name) = none ∧ SparesOthers name s.store store := by
  refine (caught_pipeline_alone h).bind (fun o s₁ ho => ?_) fun _ _ hx => by obtain ⟨_, hx, -⟩ := hx; cases hx
  obtain ⟨o', -, hp⟩ := ho
  refine .ret ⟨rfl, _, hp.left, ?_, fun m hm => ?_⟩
  · rw [execAll_cons_snd, exec_set wholeSeconds_pos, execAll_cons_snd]
    show ((s.store.insert _ _ |>.erase (failsKey name)).erase (probeKey name)).lookup (failsKey name) = none
    rw [AList.lookup_erase_ne failsKey_ne_probeKey, AList.lookup_erase]
  · refine execAll_frame fun c hc => ?_
    simp only [List.mem_cons, List.not_mem_nil, or_false] at hc
    rcases hc with rfl | rfl
    · simp [Cmd.writes, failsKey_ne_openKey]
    · simp [Cmd.writes, failsKey_inj, hm, failsKey_ne_probeKey]

/-- The pooled count is a number, as only failures count. -/
def CountsAt (s : Scene) (name : String) : Prop :=
  ∀ e, s.store.lookup (failsKey name) = some e → ∃ v, e.value = .str v

/-- One more failure in the pooled count. -/
theorem execAll_count (hcounts : CountsAt s name) {seconds : Nat} :
    let cs : List (Cmd Int) := [.incr (failsKey name), .expire (failsKey name) seconds]
    (∃ n, (execAll s.time cs s.store).1 = [.int (s.pooled name + 1), .int n]) ∧
      (execAll s.time cs s.store).2.lookup (failsKey name) =
        some ⟨.str (s.pooled name + 1), some (deadline s.time seconds)⟩ ∧
      SparesOthers name s.store (execAll s.time cs s.store).2 := by
  have hpooled : value? s.time s.store (failsKey name) = some (.str (s.pooled name)) ∨
      (value? s.time s.store (failsKey name) = none ∧ s.pooled name = 0) := by
    unfold Scene.pooled
    cases hv : value? s.time s.store (failsKey name) with
    | none => exact Or.inr ⟨rfl, rfl⟩
    | some v =>
      obtain ⟨e, he, rfl⟩ := lookup_of_value? hv
      obtain ⟨n, hn⟩ := hcounts e he
      rw [hn]
      exact Or.inl rfl
  obtain ⟨expiresAt, hincr, hlive⟩ := exec_incr_counts hpooled
  have hexp := @exec_expire_live Int _ s.time seconds _ (failsKey name) _ (live?_insert (s := s.store) hlive)
  refine ⟨⟨1, ?_⟩, ?_, fun m hm => execAll_frame fun c hc => ?_⟩
  · rw [execAll_cons_fst, hincr, execAll_cons_fst, hexp]
    rfl
  · rw [execAll_cons_snd, hincr, execAll_cons_snd, hexp]
    exact AList.lookup_insert _
  · simp only [List.mem_cons, List.not_mem_nil, or_false] at hc
    rcases hc with rfl | rfl <;> simpa [Cmd.writes, failsKey_inj] using hm

/-- No method changes the threshold. -/
theorem call_threshold {b : CircuitBreaker} {now stamp : ℚ} {m : CircuitBreaker.Method} :
    (b.call now stamp m).2.failureThreshold = b.failureThreshold := by
  cases m with
  | state => exact CircuitBreaker.refresh_failureThreshold
  | allowRequest =>
    simp only [CircuitBreaker.call, CircuitBreaker.allowRequest]
    repeat' split
    all_goals exact CircuitBreaker.refresh_failureThreshold
  | adopt state n => cases state <;> rfl
  | recordSuccess => rfl
  | recordFailure =>
    simp only [CircuitBreaker.call, CircuitBreaker.recordFailure]
    split <;> exact CircuitBreaker.refresh_failureThreshold

/-- What asking a breaker leaves. -/
structure Asked (replica : Nat) (name : String) (s s' : Scene) : Prop where
  alone : Alone s'
  time : s'.time = s.time
  store : s'.store = s.store
  threshold : ∀ r m, (s'.breakers r m).failureThreshold = (s.breakers r m).failureThreshold

theorem asked (h : Alone s) {m : CircuitBreaker.Method} : Asked replica name s (s.ask replica name m).2 := by
  rw [(ask_alone h).2]
  refine ⟨⟨h.others, h.remote⟩, rfl, rfl, fun r n => ?_⟩
  by_cases hr : r = replica
  · by_cases hn : n = name
    · subst hr hn
      simp [State.setBreaker, call_threshold]
    · subst hr
      simp [State.setBreaker, hn]
  · simp [State.setBreaker, hr]

/-- A failure recorded on a closed breaker opens it at its threshold, or leaves it closed. -/
theorem recordFailure_closed {b : CircuitBreaker} {now stamp : ℚ} (hclosed : b.state = .closed) :
    ((b.recordFailure now stamp).1 = true → b.failureThreshold ≤ b.consecutiveFailures + 1) ∧
      ((b.recordFailure now stamp).1 = false → (b.recordFailure now stamp).2.state = .closed) := by
  have hrefresh : ({ b with consecutiveFailures := b.consecutiveFailures + 1 } : CircuitBreaker).refresh now =
      { b with consecutiveFailures := b.consecutiveFailures + 1 } := by
    simp [CircuitBreaker.refresh, CircuitBreaker.due, hclosed]
  unfold CircuitBreaker.recordFailure
  rw [hrefresh]
  dsimp only
  split
  · rename_i hopens
    refine ⟨fun _ => ?_, fun h => by cases h⟩
    rcases hopens with hopens | ⟨-, hopens⟩
    · rw [hclosed] at hopens
      cases hopens
    · exact hopens
  · exact ⟨fun h => (by cases h), fun _ => hclosed⟩

theorem ask_recordFailure (h : Alone s) (hclosed : (s.breakers replica name).state = .closed) :
    ((s.ask replica name .recordFailure).1 = true →
      (s.breakers replica name).failureThreshold ≤ (s.breakers replica name).consecutiveFailures + 1) ∧
    ((s.ask replica name .recordFailure).1 = false →
      ((s.ask replica name .recordFailure).2.breakers replica name).state = .closed) := by
  obtain ⟨hreply, hleft⟩ := @ask_alone s h replica name .recordFailure
  rw [hreply, hleft]
  simp only [State.setBreaker, Function.update_self]
  exact recordFailure_closed hclosed

/-- What recording a failure leaves. -/
structure Failed (cluster : ClusterBreakers) (replica : Nat) (name : String) (s s' : Scene) : Prop where
  alone : Alone s'
  time : s'.time = s.time
  threshold : ∀ r m, (s'.breakers r m).failureThreshold = (s.breakers r m).failureThreshold
  others : SparesOthers name s.store s'.store
  count : s'.store.lookup (failsKey name) = none ∨ s'.store.lookup (failsKey name) =
    some ⟨.str (s.pooled name + 1), some (deadline s.time (wholeSeconds cluster.failureWindowSeconds))⟩
  opens : (s.breakers replica name).state = .closed → (s'.breakers replica name).state = .opened →
    (s.breakers replica name).failureThreshold ≤ (s.breakers replica name).consecutiveFailures + 1 ∨
      cluster.failureThreshold ≤ s.pooled name + 1

theorem recordFailure_alone (h : Alone s) (hcounts : CountsAt s name) :
    Ends (answer true) (cluster.recordFailure replica name) s fun _ s' => Failed cluster replica name s s' := by
  have ha := @asked replica name s h .recordFailure
  have hpooled : (s.ask replica name .recordFailure).2.pooled name = s.pooled name := by
    unfold Scene.pooled
    rw [ha.time, ha.store]
  have hcounts₁ : CountsAt (s.ask replica name .recordFailure).2 name := by
    unfold CountsAt
    rwa [ha.store]
  have hlocal := fun hclosed => @ask_recordFailure replica name s h hclosed
  have ask : Ends (answer true) (breaker replica name .recordFailure) s fun r s' =>
      r = .ok (s.ask replica name .recordFailure).1 ∧ s' = (s.ask replica name .recordFailure).2 := .call ⟨rfl, rfl⟩
  refine ask.bind (fun opened s₁ hs => ?_) fun _ _ hx => by cases hx.1
  obtain ⟨ho, rfl⟩ := hs
  obtain rfl := Except.ok.inj ho
  generalize (s.ask replica name .recordFailure).1 = opened at hlocal
  generalize (s.ask replica name .recordFailure).2 = s₁ at ha hpooled hcounts₁ hlocal
  cases opened with
  | true =>
    refine (publishOpen_alone ha.alone).bind (fun _ s₂ hs => ?_) fun _ _ hx => by cases hx.1
    obtain ⟨-, store, rfl, hnone, hspares⟩ := hs
    exact .ret ⟨ha.alone.withStore, ha.time, ha.threshold, fun m hm => (hspares m hm).trans (by rw [ha.store]),
      Or.inl hnone, fun hclosed _ => Or.inl ((hlocal hclosed).1 rfl)⟩
  | false =>
    refine (caught_pipeline_alone ha.alone).bind (fun o s₂ ho => ?_) fun _ _ hx => by obtain ⟨_, hx, -⟩ := hx; cases hx
    obtain ⟨o', ho, hp⟩ := ho
    obtain rfl := Except.ok.inj ho
    obtain ⟨⟨n, hreplies⟩, hcount, hspares⟩ :=
      @execAll_count name s₁ hcounts₁ (wholeSeconds cluster.failureWindowSeconds)
    have hok := hp.replies (by rw [hreplies]; simp)
    rw [hreplies] at hok
    subst hok
    rw [hpooled] at hcount
    have hclosed₁ : (s.breakers replica name).state = .closed → (s₂.breakers replica name).state ≠ .opened := by
      intro hclosed hopen
      rw [hp.left] at hopen
      have hclosed := (hlocal hclosed).2 rfl
      have hopen : (s₁.breakers replica name).state = .opened := hopen
      rw [hclosed] at hopen
      cases hopen
    have hs₂ := congrArg (fun s : Scene => s.store) hp.left
    dsimp only [Scene.withStore] at hs₂
    have hspares₂ : SparesOthers name s.store s₂.store := fun m hm => by rw [hs₂, hspares m hm, ha.store]
    have halone₂ : Alone s₂ := hp.left ▸ ha.alone.withStore
    have htime₂ : s₂.time = s.time := hp.left ▸ ha.time
    have hthreshold₂ : ∀ r m, (s₂.breakers r m).failureThreshold = (s.breakers r m).failureThreshold :=
      hp.left ▸ ha.threshold
    show Ends _ (ite _ _ _) _ _
    split
    · rename_i hreached
      refine (publishOpen_alone halone₂).bind (fun _ s₃ hs => ?_) fun _ _ hx => by cases hx.1
      obtain ⟨-, store, rfl, hnone, hspares₃⟩ := hs
      have ha₄ := @asked replica name _ (@Alone.withStore _ halone₂ store) (.adopt .opened (s₁.pooled name + 1))
      have ask₄ : Ends (answer true) (breaker replica name (.adopt .opened (s₁.pooled name + 1))) (s₂.withStore store)
          fun r s' => r = .ok () ∧ Asked replica name (s₂.withStore store) s' := .call ⟨rfl, ha₄⟩
      refine ask₄.bind (fun _ s₄ hs => ?_) fun _ _ hx => by cases hx.1
      obtain ⟨-, ha₄⟩ := hs
      refine .ret ⟨ha₄.alone, ha₄.time.trans htime₂, fun r m => (ha₄.threshold r m).trans (hthreshold₂ r m), ?_, ?_, ?_⟩
      · intro m hm
        rw [ha₄.store]
        exact (hspares₃ m hm).trans (hspares₂ m hm)
      · exact Or.inl (ha₄.store ▸ hnone)
      · exact fun _ _ => Or.inr (hpooled ▸ hreached)
    · refine .ret ⟨halone₂, htime₂, hthreshold₂, hspares₂, Or.inr ?_, fun hclosed hopen => absurd hopen (hclosed₁ hclosed)⟩
      rw [hs₂, hcount, ha.time]

/-- Nothing but the breakers and other keys may have changed. -/
structure SparesCounts (s s' : Scene) : Prop where
  alone : Alone s'
  time : s'.time = s.time
  threshold : ∀ r m, (s'.breakers r m).failureThreshold = (s.breakers r m).failureThreshold
  counts : ∀ m, s'.store.lookup (failsKey m) = s.store.lookup (failsKey m)

theorem recordSuccess_alone (h : Alone s) : Ends (answer true) (cluster.recordSuccess replica name) s fun _ s' =>
    Alone s' ∧ s'.time = s.time ∧
      (∀ r m, (s'.breakers r m).failureThreshold = (s.breakers r m).failureThreshold) ∧
      s'.store.lookup (failsKey name) = none ∧ SparesOthers name s.store s'.store := by
  have ask : Ends (answer true) (breaker replica name .recordSuccess) s fun r s' => r = .ok () ∧ Asked replica name s s' :=
    .call ⟨rfl, @asked replica name s h .recordSuccess⟩
  refine ask.bind (fun _ s₁ hs => ?_) fun _ _ hx => by cases hx.1
  obtain ⟨-, ha⟩ := hs
  obtain ⟨hleft, hx, -⟩ := @redis_alone s₁ ha.alone (.del [failsKey name, openKey name, probeKey name])
  have del : Ends (answer true) (caught (redis (.del [failsKey name, openKey name, probeKey name]))) s₁ fun r s' =>
      (∃ o, r = .ok o) ∧ s' = s₁.withStore
        (Redis.exec s₁.time (.del [failsKey name, openKey name, probeKey name]) s₁.store).2 :=
    ends_caught (.call ⟨fun x h => (hx x h).1, ⟨_, rfl⟩, hleft⟩)
  refine del.bind (fun _ s₂ hs => ?_) fun _ _ hx => by cases hx.1.choose_spec
  obtain ⟨-, rfl⟩ := hs
  refine .ret ⟨ha.alone.withStore, ha.time, ha.threshold, ?_, fun m hm => ?_⟩
  · show ((((s₁.store.erase (failsKey name)).erase (openKey name)).erase (probeKey name)).lookup (failsKey name)) = none
    rw [AList.lookup_erase_ne failsKey_ne_probeKey, AList.lookup_erase_ne failsKey_ne_openKey, AList.lookup_erase]
  · rw [← ha.store]
    exact exec_frame (by simp [Cmd.writes, failsKey_inj, hm, failsKey_ne_openKey, failsKey_ne_probeKey])

/-- Operations that leave the counts alone. -/
def Op.sparesCounts : Op → Prop
  | .redis c => ∀ m, failsKey m ∉ c.writes
  | .create _ _ | .fault _ | .complete _ _ | .stream _ _ => False
  | _ => True

theorem sparesCounts_keep {e : Op} {s' : Scene} (he : e.sparesCounts) (h : SparesCounts s s') :
    SparesCounts s (answer true e s').2 := by
  cases e with
  | redis c =>
    show SparesCounts s (s'.redis c).2
    rw [(redis_alone h.alone).1]
    exact ⟨h.alone.withStore, h.time, h.threshold, fun m => (exec_frame (he m)).trans (h.counts m)⟩
  | breaker replica name m =>
    have ha := @asked replica name s' h.alone m
    exact ⟨ha.alone, ha.time.trans h.time, fun r m => (ha.threshold r m).trans (h.threshold r m),
      fun m => ha.store.symm ▸ h.counts m⟩
  | create => cases he
  | fault => cases he
  | complete => cases he
  | stream => cases he
  | _ => exact ⟨⟨h.alone.others, h.alone.remote⟩, h.time, h.threshold, h.counts⟩

theorem sparesCounts_of_inSync {e : Op} (he : e.inSync) : e.sparesCounts := by
  cases e with
  | redis c =>
    cases c with
    | get key => exact fun m hm => by cases hm
    | set key v ex nx =>
      obtain ⟨name, rfl⟩ := he
      exact fun m hm => failsKey_ne_probeKey (List.mem_singleton.mp hm)
    | _ => cases he
  | monotonic _ => trivial
  | syncedAt _ => trivial
  | stamp _ _ => trivial
  | known _ _ => trivial
  | breaker _ _ _ => trivial
  | _ => cases he

/-! ### Runs -/

/-- What the pooled counts say about the outcomes so far. -/
structure Tally (cluster : ClusterBreakers) (f : Fleet) : Prop where
  alone : Alone f.toScene
  threshold : ∀ r m, (f.breakers r m).failureThreshold = cluster.failureThreshold
  count : ∀ name e, f.store.lookup (failsKey name) = some e → ∃ v a as, e.value = .str v ∧ f.outcomes name = a :: as ∧
    a.ok = false ∧ e.expiresAt = some (deadline a.time (wholeSeconds cluster.failureWindowSeconds)) ∧
    v ≤ (currentRun cluster.failureWindowSeconds (a :: as)).length

theorem currentRun_failure {window : ℚ} {a : Recorded} {as : List Recorded} (ha : a.ok = false) :
    ∃ bs, currentRun window (a :: as) = a :: bs := by
  rw [currentRun, ha]
  simp only [Bool.false_eq_true, if_false]
  split
  · exact ⟨[], rfl⟩
  · split
    · exact ⟨_, rfl⟩
    · exact ⟨[], rfl⟩

theorem wholeSeconds_le {seconds : ℚ} (h : 1 ≤ seconds) : (wholeSeconds seconds : ℚ) ≤ seconds := by
  unfold wholeSeconds
  have hfloor : (⌊seconds⌋.toNat : ℚ) ≤ seconds := by
    have hpos : 0 ≤ ⌊seconds⌋ := Int.floor_nonneg.mpr (by linarith)
    have hcast : ((⌊seconds⌋.toNat : ℤ) : ℚ) = ⌊seconds⌋ := by rw [Int.toNat_of_nonneg hpos]
    have := Int.floor_le seconds
    rw [← hcast] at this
    exact_mod_cast this
  rcases max_cases ⌊seconds⌋.toNat 1 with ⟨hm, -⟩ | ⟨hm, -⟩
  · rw [hm]
    exact hfloor
  · rw [hm]
    exact_mod_cast h

/-- One more failure goes on with the run that the pooled count stands for. -/
theorem Tally.extends {f : Fleet} (h : Tally cluster f) (hwindow : 1 ≤ cluster.failureWindowSeconds) :
    f.pooled name + 1 ≤
      (currentRun cluster.failureWindowSeconds (⟨name, f.time, false⟩ :: f.outcomes name)).length := by
  have one : (1 : Int) ≤
      (currentRun cluster.failureWindowSeconds (⟨name, f.time, false⟩ :: f.outcomes name)).length := by
    obtain ⟨bs, hbs⟩ := @currentRun_failure cluster.failureWindowSeconds ⟨name, f.time, false⟩ (f.outcomes name) rfl
    rw [hbs, List.length_cons]
    omega
  unfold Scene.pooled
  split
  · rename_i n hn
    obtain ⟨e, he, hv⟩ := Option.map_eq_some_iff.mp hn
    obtain ⟨hlookup, hlive⟩ := live?_eq_some.mp he
    obtain ⟨v, a, as, hval, hout, hok, hexp, hle⟩ := h.count name e hlookup
    rw [hval] at hv
    cases hv
    obtain ⟨bs, hbs⟩ := @currentRun_failure cluster.failureWindowSeconds a as hok
    rw [hbs] at hle
    have hlt : f.time < deadline a.time (wholeSeconds cluster.failureWindowSeconds) := by
      unfold Entry.live at hlive
      rw [hexp] at hlive
      simpa using hlive
    have hgap : ((f.time - a.time : ℚ) / 1000) ≤ cluster.failureWindowSeconds := by
      have hlt : (f.time : ℚ) < a.time + 1000 * (wholeSeconds cluster.failureWindowSeconds : ℚ) := by
        unfold deadline at hlt
        exact_mod_cast hlt
      have := wholeSeconds_le hwindow
      rw [div_le_iff₀ (by norm_num)]
      linarith
    rw [hout, currentRun, hbs]
    simp only [Bool.false_eq_true, if_false, if_pos hgap, List.length_cons] at hle ⊢
    push_cast
    push_cast at hle
    omega
  · omega

/-- What leaves the counts alone, and records nothing, keeps the tally. -/
theorem Tally.of_spares {f : Fleet} {s' : Scene} (h : Tally cluster f) (hs : SparesCounts f.toScene s') :
    Tally cluster { f with toScene := s' } where
  alone := hs.alone
  threshold r m := (hs.threshold r m).trans (h.threshold r m)
  count name e he := h.count name e ((hs.counts name).symm.trans he)

theorem Tally.counts {f : Fleet} (h : Tally cluster f) : CountsAt f.toScene name := fun e he => by
  obtain ⟨v, -, -, hv, -⟩ := h.count name e he
  exact ⟨v, hv⟩

theorem outcomes_other {f : Fleet} {s' : Scene} {a : Recorded} {m : String} (hm : m ≠ a.name) :
    ({ toScene := s', past := a :: f.past } : Fleet).outcomes m = f.outcomes m :=
  List.filter_cons_of_neg (by simpa using hm.symm)

theorem outcomes_own {f : Fleet} {s' : Scene} {a : Recorded} :
    ({ toScene := s', past := a :: f.past } : Fleet).outcomes a.name = a :: f.outcomes a.name :=
  List.filter_cons_of_pos (by simp)

theorem Tally.happen {f : Fleet} (hwindow : 1 ≤ cluster.failureWindowSeconds) (h : Tally cluster f)
    (happening : Happening) : Tally cluster (f.happen cluster happening) := by
  have here : SparesCounts f.toScene f.toScene := ⟨h.alone, rfl, fun _ _ => rfl, fun _ => rfl⟩
  cases happening with
  | sync replica names => exact h.of_spares (Ends.hands (fun _ _ => sparesCounts_keep)
      (ClusterBreakers.sync_hands.mono fun _ => sparesCounts_of_inSync) here)
  | allow replica name => exact h.of_spares (sparesCounts_keep (e := .breaker replica name .allowRequest) trivial here)
  | idle milliseconds => exact ⟨⟨h.alone.others, h.alone.remote⟩, h.threshold, h.count⟩
  | success replica name =>
    obtain ⟨halone, -, hthreshold, hnone, hspares⟩ := @recordSuccess_alone cluster replica name f.toScene h.alone
    refine ⟨halone, fun r m => (hthreshold r m).trans (h.threshold r m), fun m e he => ?_⟩
    by_cases hm : m = name
    · subst hm
      cases hnone.symm.trans he
    · rw [show (f.happen cluster (.success replica name)).outcomes m = f.outcomes m from outcomes_other hm]
      exact h.count m e ((hspares m hm).symm.trans he)
  | failure replica name =>
    have hfailed := @recordFailure_alone cluster replica name f.toScene h.alone h.counts
    refine ⟨hfailed.alone, fun r m => (hfailed.threshold r m).trans (h.threshold r m), fun m e he => ?_⟩
    by_cases hm : m = name
    · subst hm
      rcases hfailed.count with hnone | hcount
      · cases hnone.symm.trans he
      · cases hcount.symm.trans he
        exact ⟨_, _, _, rfl, outcomes_own, rfl, rfl, h.extends hwindow⟩
    · rw [show (f.happen cluster (.failure replica name)).outcomes m = f.outcomes m from outcomes_other hm]
      exact h.count m e ((hfailed.others m hm).symm.trans he)

end

/-- Redis is empty, nothing has been recorded, and every breaker has the threshold of the cluster. -/
structure Start (cluster : ClusterBreakers) (f : Fleet) : Prop where
  alone : Alone f.toScene
  threshold : ∀ r m, (f.breakers r m).failureThreshold = cluster.failureThreshold
  empty : f.store = ∅
  past : f.past = []

theorem Start.tally {cluster : ClusterBreakers} {f : Fleet} (h : Start cluster f) : Tally cluster f where
  alone := h.alone
  threshold := h.threshold
  count name e he := by
    rw [h.empty] at he
    cases he

theorem tally_run {cluster : ClusterBreakers} (hwindow : 1 ≤ cluster.failureWindowSeconds) {happenings : List Happening} :
    ∀ {f : Fleet}, Tally cluster f → Tally cluster (happenings.foldl (Fleet.happen cluster) f) := by
  induction happenings with
  | nil => exact id
  | cons happening happenings ih => exact fun h => ih (h.happen hwindow happening)

/-- A failure that opens a closed circuit is the last of a current run of at least as many failures as the
    threshold says. -/
def OpensOnCurrentRun (cluster : ClusterBreakers) (f : Fleet) : Happening → Prop
  | .failure replica name =>
    (f.breakers replica name).state = .closed →
    ((f.happen cluster (.failure replica name)).breakers replica name).state = .opened →
    cluster.failureThreshold ≤ (currentRun cluster.failureWindowSeconds
      ((f.happen cluster (.failure replica name)).outcomes name)).length
  | _ => True

/-- A replica that is about to open a closed circuit on its own count has not counted more failures than the
    replicas have pooled. -/
def CountsPooled (f : Fleet) : Happening → Prop
  | .failure replica name =>
    (f.breakers replica name).state = .closed →
    (f.breakers replica name).failureThreshold ≤ (f.breakers replica name).consecutiveFailures + 1 →
    (f.breakers replica name).consecutiveFailures ≤ f.pooled name
  | _ => True

theorem opensOnCurrentRun {cluster : ClusterBreakers} (hwindow : 1 ≤ cluster.failureWindowSeconds) {start : Fleet}
    (hstart : Start cluster start) (happenings : List Happening) (happening : Happening)
    (hpooled : CountsPooled (happenings.foldl (Fleet.happen cluster) start) happening) :
    OpensOnCurrentRun cluster (happenings.foldl (Fleet.happen cluster) start) happening := by
  have htally := @tally_run cluster hwindow happenings _ hstart.tally
  generalize happenings.foldl (Fleet.happen cluster) start = f at hpooled htally
  cases happening with
  | failure replica name =>
    intro hclosed hopened
    have hrun := @Tally.extends cluster name f htally hwindow
    rw [show (f.happen cluster (.failure replica name)).outcomes name = ⟨name, f.time, false⟩ :: f.outcomes name
      from outcomes_own]
    rcases (@recordFailure_alone cluster replica name f.toScene htally.alone htally.counts).opens hclosed hopened
      with hown | hcount
    · have hle := hpooled hclosed hown
      have hthreshold := htally.threshold replica name
      omega
    · omega
  | _ => trivial

namespace IdleHour

def shared : ClusterBreakers := { failureThreshold := 3, cooldownSeconds := 30 }

theorem threshold_positive : (1 : Int) ≤ 3 := by decide

/-- One replica whose clock moves on by an hour between two calls. -/
def start : Fleet where
  breakers := fun _ _ => { failureThreshold := 3, cooldownSeconds := 30, positive := threshold_positive }
  ticks := fun _ => 0
  monotonic := fun n => 3600 * n
  answers := fun _ => { whole := .error .timeout, script := ⟨[], none⟩ }

/-- Two failures, an idle hour, and a third. -/
def happenings : List Happening :=
  [.sync 0 ["a"], .failure 0 "a", .sync 0 ["a"], .failure 0 "a", .idle 3600000, .sync 0 ["a"]]

/-- The circuit opens on the third failure, an hour after the second. -/
theorem not_opensOnCurrentRun : start.syncsEffective shared happenings = true ∧
    ¬OpensOnCurrentRun shared (happenings.foldl (Fleet.happen shared) start) (.failure 0 "a") := by
  refine ⟨by decide +kernel, fun h => ?_⟩
  exact absurd (h (by decide +kernel) (by decide +kernel)) (by decide +kernel)

theorem start_start : Start shared start := ⟨⟨rfl, rfl⟩, fun _ _ => rfl, rfl, rfl⟩

/-- Three failures in a row open it as they should. -/
theorem three_openOnCurrentRun : OpensOnCurrentRun shared
    ([Happening.failure 0 "a", .failure 0 "a"].foldl (Fleet.happen shared) start) (.failure 0 "a") :=
  opensOnCurrentRun (by decide +kernel) start_start _ _ fun _ _ => by decide +kernel

end IdleHour

end NexusGate.Gateway.Router
