import NexusGate.Gateway.RolloutMachine
import NexusGate.Theorems.Gateway.Rollout

/-! # One manager is a simple machine

Between two calls of a single manager Redis holds what the machine is in, and the manager's cache is either out
of date by its own mark or shows the same. -/

namespace NexusGate.Gateway.Rollout
open Async Redis

/-- What is stored is what the machine is in; tables are stored as texts that parse. -/
structure Stores (m : RolloutManager) (store : Store Blob) (M : Machine) : Prop where
  stable : (value? 0 store stableKey = none ∧ M.stable = (m.format.fingerprint m.fallback, m.fallback)) ∨
    ∃ text promotedAt, value? 0 store stableKey = some (.str (.stable M.stable.1 text promotedAt)) ∧
      m.format.fromText text = some M.stable.2
  canary : match M.canary with
    | none => value? 0 store canaryKey = none
    | some c => ∃ text, value? 0 store canaryKey = some (.str (.canary c.state text)) ∧ m.format.fromText text = some c.table
  stats : (hash? 0 store statsKey).isSome = true

/-- What a manager sees in its cache. -/
def Cached.Shows (m : RolloutManager) (cache : Cached) (M : Machine) : Prop :=
  cache.stable.getD (m.format.fingerprint m.fallback, m.fallback) = M.stable ∧
    cache.canary = M.canary.map fun c => (c.state, c.table)

/-- A state of the machine stands for the stores, and for the copy when there is one. -/
structure Mirrors (m : RolloutManager) (s : State) (M : Machine) : Prop where
  stores : Stores m s.store M
  cache : (s.cache m.replica).fetchedAt = none ∨ (s.cache m.replica).Shows m M

/-- Actions on a manager, one after the other. -/
def RolloutManager.actions (m : RolloutManager) (actions : List (Action × Occasion)) (s : State) :
    List (Except Exn Result) × State :=
  performAll (actions.map fun a => (a.1.call m, a.2)) s

/-- The results of the actions are those of the machine, and it is the machine's state that is stored in the end;
    there a canary that was rolled back takes no requests. -/
structure RunsAsMachine (m : RolloutManager) (s : State) (M : Machine) (actions : List (Action × Occasion)) : Prop where
  results : (m.actions actions s).1 = (M.run m.format actions).1
  stored : Stores m (m.actions actions s).2.store (M.run m.format actions).2
  withdrawn : ∀ state text, value? 0 (m.actions actions s).2.store canaryKey = some (.str (.canary state text)) →
    state.rolledBackAt.isSome = true → state.weight = 0

section Calls
variable {m : RolloutManager} {o : Occasion} {a : Alone} {M : Machine}

/-- Nothing of the machine has been touched. -/
theorem Mirrors.keep {s s' : State} (h : Mirrors m s M) (hstore : s'.store = s.store) (hcache : s'.cache = s.cache) :
    Mirrors m s' M :=
  ⟨hstore ▸ h.stores, hcache ▸ h.cache⟩

/-- What `_load` parses of what is stored. -/
theorem Stores.parsed {store : Store Blob} (h : Stores m store M) {stableRaw canaryRaw : Option Blob}
    (hmget : (Redis.exec 0 (.mget [stableKey, canaryKey]) store).1 = .bulks [stableRaw, canaryRaw]) (now : ℚ) :
    (m.parse stableRaw canaryRaw now).Shows m M := by
  simp only [Redis.exec, List.map_cons, List.map_nil, Reply.bulks.injEq, List.cons.injEq, and_true] at hmget
  obtain ⟨rfl, rfl⟩ := hmget
  have hcanary := h.canary
  rcases h.stable with ⟨hs, hM⟩ | ⟨text, promotedAt, hs, hM⟩
  · cases hc : M.canary with
    | none =>
      rw [hc] at hcanary
      simp [RolloutManager.parse, Cached.Shows, hs, hM, hc, hcanary]
    | some c =>
      rw [hc] at hcanary
      obtain ⟨text', hc', ht'⟩ := hcanary
      simp [RolloutManager.parse, Cached.Shows, hs, hM, hc, hc', ht']
  · cases hc : M.canary with
    | none =>
      rw [hc] at hcanary
      simp [RolloutManager.parse, Cached.Shows, hs, hM, hc, hcanary]
    | some c =>
      rw [hc] at hcanary
      obtain ⟨text', hc', ht'⟩ := hcanary
      simp [RolloutManager.parse, Cached.Shows, hs, hM, hc, hc', ht']

theorem mget_reply {store : Store Blob} : ∃ stableRaw canaryRaw,
    (Redis.exec 0 (.mget [stableKey, canaryKey]) store).1 = .bulks [stableRaw, canaryRaw] :=
  ⟨_, _, rfl⟩

theorem load_ends (ho : o.Reachable) (h : Mirrors m a.toState M) :
    Ends (o.answer m.replica) m.load a fun r a' => Mirrors m a'.toState M ∧ a'.store = a.store ∧
      ∃ cache, r = .ok cache ∧ cache.Shows m M := by
  refine Ends.bind_iff.mpr (Occasion.clock_ends fun now a₁ hs₁ hc₁ _ => ?_)
  refine Ends.bind_iff.mpr (Occasion.readCache_ends fun a₂ hs₂ hc₂ _ => ?_)
  have h := h.keep (hs₂.trans hs₁) (hc₂.trans hc₁)
  show Ends _ (ite _ _ _) _ _
  split
  · rename_i hfresh
    refine .ret ⟨h, hs₂.trans hs₁, _, rfl, ?_⟩
    rcases h.cache with hnone | hshows
    · rw [hc₂] at hnone
      rw [hnone] at hfresh
      cases hfresh
    · rwa [hc₂] at hshows
  · obtain ⟨stableRaw, canaryRaw, hr⟩ := @mget_reply a₂.store
    refine Ends.bind_iff.mpr (.attempt (Occasion.redis_ends (ho _) fun a₃ (hs₃ : a₃.store = a₂.store) hc₃ _ => ?_))
    have hshows := h.stores.parsed hr now
    have h := h.keep hs₃ hc₃
    rw [hr]
    refine Ends.bind_iff.mpr (Occasion.writeCache_ends fun a₄ hs₄ hc₄ _ =>
      .ret ⟨⟨hs₄ ▸ h.stores, Or.inr ?_⟩, ((hs₄.trans hs₃).trans hs₂).trans hs₁, _, rfl, hshows⟩)
    rw [hc₄, Function.update_self]
    exact hshows

/-! ### What is stored -/

theorem exec_set_forever {store : Store Blob} {k : String} {b : Blob} :
    Redis.exec 0 (.set k b none false) store = (.ok, store.insert k ⟨.str b, none⟩) :=
  rfl

theorem value?_set {store : Store Blob} {k : String} {b : Blob} :
    value? 0 (store.insert k ⟨.str b, none⟩) k = some (.str b) := by
  rw [value?, live?_insert rfl]
  rfl

theorem Stores.setCanary {store : Store Blob} (h : Stores m store M) {c : Canary} {text : String}
    (ht : m.format.fromText text = some c.table) :
    Stores m (Redis.exec 0 (.set canaryKey (.canary c.state text) none false) store).2 { M with canary := some c } := by
  have hframe : ∀ {k}, k ≠ canaryKey →
      (store.insert canaryKey ⟨.str (.canary c.state text), none⟩).lookup k = store.lookup k := AList.lookup_insert_ne
  rw [exec_set_forever]
  refine ⟨?_, ⟨text, value?_set, ht⟩, ?_⟩
  · rw [value?_congr (hframe (by decide))]
    exact h.stable
  · rw [hash?_congr (hframe (by decide))]
    exact h.stats

theorem Stores.deleteCanary {store : Store Blob} (h : Stores m store M) :
    Stores m (Redis.exec 0 (.del [canaryKey]) store).2 { M with canary := none } := by
  have hframe : ∀ {k}, k ∉ [canaryKey] → (Redis.exec 0 (.del [canaryKey]) store).2.lookup k = store.lookup k :=
    fun hk => exec_frame hk
  refine ⟨?_, ?_, ?_⟩
  · rw [value?_congr (hframe (by decide))]
    exact h.stable
  · simp [Redis.exec, value?, live?]
  · rw [hash?_congr (hframe (by decide))]
    exact h.stats

theorem Stores.setStable {store : Store Blob} (h : Stores m store M) {version text promotedAt : String} {table : RoutingConfig}
    (ht : m.format.fromText text = some table) :
    Stores m (Redis.exec 0 (.set stableKey (.stable version text promotedAt) none false) store).2
      { M with stable := (version, table) } := by
  have hframe : ∀ {k}, k ≠ stableKey →
      (store.insert stableKey ⟨.str (.stable version text promotedAt), none⟩).lookup k = store.lookup k :=
    AList.lookup_insert_ne
  have hcanary := h.canary
  rw [exec_set_forever]
  refine ⟨Or.inr ⟨text, promotedAt, value?_set, ht⟩, ?_, ?_⟩
  · rw [value?_congr (hframe (by decide))]
    exact hcanary
  · rw [hash?_congr (hframe (by decide))]
    exact h.stats

/-- A command on the counters, which are fields of a hash. -/
theorem Stores.count {store : Store Blob} (h : Stores m store M) {c : Cmd Blob} (hw : c.writes = [statsKey])
    (hleft : (hash? 0 (Redis.exec 0 c store).2 statsKey).isSome = true) : Stores m (Redis.exec 0 c store).2 M := by
  have hframe : ∀ {k}, k ∉ [statsKey] → (Redis.exec 0 c store).2.lookup k = store.lookup k :=
    fun hk => exec_frame (hw ▸ hk)
  refine ⟨?_, ?_, hleft⟩
  · rw [value?_congr (hframe (by decide))]
    exact h.stable
  · have hcanary := h.canary
    rw [value?_congr (hframe (by decide))]
    exact hcanary

/-! ### What the actions do -/

theorem canary_ends (ho : o.Reachable) (h : Mirrors m a.toState M) :
    Ends (o.answer m.replica) m.canary a fun r a' => Mirrors m a'.toState M ∧ a'.store = a.store ∧
      r = .ok (M.canary.map fun c => (c.state, c.table)) := by
  refine Ends.bind_iff.mpr ((load_ends ho h).mono fun r a' h => ?_)
  obtain ⟨h, hs, cache, rfl, hshows⟩ := h
  exact .ret ⟨h, hs, congrArg Except.ok hshows.2⟩

theorem invalidate_ends (h : Stores m a.store M) :
    Ends (o.answer m.replica) m.invalidate a fun r a' => r = .ok () ∧ a'.store = a.store ∧ Mirrors m a'.toState M := by
  refine Ends.bind_iff.mpr (Occasion.readCache_ends fun a₁ hs₁ hc₁ _ => ?_)
  refine Occasion.writeCache_ends fun a₂ hs₂ hc₂ _ => ⟨rfl, hs₂.trans hs₁, (hs₂.trans hs₁) ▸ h, Or.inl ?_⟩
  rw [hc₂, Function.update_self]

/-- `_write_canary`, of a table or of the text it was parsed from. -/
theorem writeCanary_ends (ho : o.Reachable) (h : Stores m a.store M) {c : Canary} {configText : Option String}
    (hdump : m.format.fromText (m.format.modelDumpJson c.table) = some c.table)
    (ht : ∀ t, configText = some t → m.format.fromText t = some c.table) :
    Ends (o.answer m.replica) (m.writeCanary c.state configText c.table) a fun r a' =>
      r = .ok () ∧ a'.store.lookup statsKey = a.store.lookup statsKey ∧ Mirrors m a'.toState { M with canary := some c } := by
  refine Ends.bind_iff.mpr (Occasion.redis_ok (ho _) rfl fun a₁ hs₁ _ _ => (invalidate_ends ?_).mono fun r a₂ h₂ =>
    ⟨h₂.1, by rw [h₂.2.1, hs₁]; exact exec_frame (c := .set canaryKey _ none false) (by simp [Cmd.writes, canaryKey, statsKey]), h₂.2.2⟩)
  rw [hs₁]
  refine h.setCanary ?_
  cases configText with
  | none => exact hdump
  | some t =>
    show m.format.fromText (ite _ _ _) = _
    split
    · exact hdump
    · exact ht t rfl

/-- What an action does from `a` on, where the machine is in `M`. -/
def DoneAs (m : RolloutManager) (o : Occasion) (M : Machine) (a : Alone) (action : Action) : Prop :=
  Ends (o.answer m.replica) (action.call m).body a fun r a' =>
    r = (M.step m.format o.utcnow o.random action).1 ∧ Mirrors m a'.toState (M.step m.format o.utcnow o.random action).2

/-- A canary that is published has not been counted yet. -/
theorem publish_ends (hdump : m.format.RoundTrips) (ho : o.Reachable) (h : Mirrors m a.toState M) {configText : String}
    {table : RoutingConfig} (ht : m.format.fromText configText = some table) {weight : Weight} {note : Option String} :
    Ends (o.answer m.replica) (m.publish configText weight.val note) a fun r a' =>
      let c := Machine.publish table (m.format.fingerprint table) weight note o.utcnow
      r = .ok c.state ∧ Mirrors m a'.toState { M with canary := some c } ∧
        ∃ counts, hash? 0 a'.store statsKey = some counts ∧ counts.lookup (RolloutManager.requestsField c.version) = none ∧
          counts.lookup (RolloutManager.errorsField c.version) = none := by
  simp only [RolloutManager.publish, ht]
  refine Ends.bind_iff.mpr (Occasion.utcnow_ends fun a₁ hs₁ hc₁ _ => ?_)
  refine Ends.bind_iff.mpr ((writeCanary_ends (c := Machine.publish table _ weight note o.utcnow) ho (hs₁ ▸ h.stores)
    (hdump _ _ ht) fun t htext => by cases htext; exact ht).mono fun r a₂ h₂ => ?_)
  obtain ⟨rfl, -, h₂⟩ := h₂
  obtain ⟨counts, hcounts⟩ := Option.isSome_iff_exists.mp h₂.stores.stats
  obtain ⟨⟨n, hn⟩, hleft⟩ := exec_hdel_hash hcounts
  refine Ends.bind_iff.mpr (Occasion.redis_ok (ho _) (by rw [hn]; rfl) fun a₃ hs₃ hc₃ _ => ?_)
  refine .ret ⟨rfl, ⟨?_, hc₃ ▸ h₂.cache⟩, _, hs₃ ▸ hleft, ?_, AList.lookup_erase _ _⟩
  · rw [hs₃]
    exact h₂.stores.count rfl (by rw [hleft]; rfl)
  · refine (AList.lookup_erase_ne fun heq => ?_).trans (AList.lookup_erase _ _)
    exact absurd ((String.append_right_inj _).mp heq) (by decide)

theorem publish_done (hdump : m.format.RoundTrips) (ho : o.Reachable) (h : Mirrors m a.toState M) {configText : String}
    {weight : Weight} {note : Option String} : DoneAs m o M a (.publish configText weight note) := by
  unfold DoneAs
  simp only [Action.call, Call.body, Machine.step]
  cases ht : m.format.fromText configText with
  | none =>
    simp only [RolloutManager.publish, ht]
    exact .throw ⟨rfl, h⟩
  | some table =>
    refine Ends.bind_iff.mpr ((publish_ends hdump ho h ht).mono fun r a₁ h₁ => ?_)
    obtain ⟨rfl, h₁, -⟩ := h₁
    exact .ret ⟨rfl, h₁⟩

theorem setWeight_done (hdump : m.format.RoundTrips) (ho : o.Reachable)
    (h : Mirrors m a.toState M) {weight : Weight} : DoneAs m o M a (.setWeight weight) := by
  refine Ends.bind_iff.mpr (Ends.bind_iff.mpr ((canary_ends ho h).mono fun r a₁ h₁ => ?_))
  obtain ⟨h, -, rfl⟩ := h₁
  obtain ⟨stable, canary⟩ := M
  cases canary with
  | none => exact .ret (.ret ⟨rfl, h⟩)
  | some c =>
    obtain ⟨text, -, ht⟩ := h.stores.canary
    refine Ends.bind_iff.mpr (Occasion.edit_ends fun a₂ hs₂ _ _ => ?_)
    refine Ends.bind_iff.mpr ((writeCanary_ends (c := Machine.setWeight c weight) ho (hs₂ ▸ h.stores)
      (hdump _ _ ht) (by rintro _ ⟨⟩)).mono fun r a₃ h₃ => ?_)
    obtain ⟨rfl, -, h₃⟩ := h₃
    exact .ret (.ret ⟨rfl, h₃⟩)

theorem rollBack_ends (hdump : m.format.RoundTrips) (ho : o.Reachable) (h : Mirrors m a.toState M) {reason : String} :
    Ends (o.answer m.replica) (m.rollBack reason) a fun r a' =>
      r = .ok (M.canary.map fun c => (Machine.rollBack c reason o.utcnow).state) ∧
        a'.store.lookup statsKey = a.store.lookup statsKey ∧
        Mirrors m a'.toState { M with canary := M.canary.map fun c => Machine.rollBack c reason o.utcnow } := by
  refine Ends.bind_iff.mpr ((canary_ends ho h).mono fun r a₁ h₁ => ?_)
  obtain ⟨h, hs₁, rfl⟩ := h₁
  obtain ⟨stable, canary⟩ := M
  cases canary with
  | none => exact .ret ⟨rfl, by rw [hs₁], h⟩
  | some c =>
    obtain ⟨text, -, ht⟩ := h.stores.canary
    refine Ends.bind_iff.mpr (Occasion.utcnow_ends fun a₂ hs₂ _ _ => ?_)
    refine Ends.bind_iff.mpr (Occasion.edit_ends fun a₃ hs₃ _ _ => ?_)
    refine Ends.bind_iff.mpr ((writeCanary_ends (c := Machine.rollBack c reason o.utcnow) ho
      ((hs₃.trans hs₂) ▸ h.stores) (hdump _ _ ht) (by rintro _ ⟨⟩)).mono fun r a₄ h₄ => ?_)
    obtain ⟨rfl, hs₄, h₄⟩ := h₄
    exact .ret ⟨rfl, by rw [hs₄, hs₃, hs₂, hs₁], h₄⟩

theorem rollBack_done (hdump : m.format.RoundTrips) (ho : o.Reachable) (h : Mirrors m a.toState M) {reason : String} :
    DoneAs m o M a (.rollBack reason) := by
  refine Ends.bind_iff.mpr ((rollBack_ends hdump ho h).mono fun r a₁ h₁ => ?_)
  obtain ⟨rfl, -, h⟩ := h₁
  obtain ⟨stable, canary⟩ := M
  cases canary <;> exact .ret ⟨rfl, h⟩

theorem promote_done (hdump : m.format.RoundTrips) (ho : o.Reachable)
    (h : Mirrors m a.toState M) : DoneAs m o M a .promote := by
  refine Ends.bind_iff.mpr (Ends.bind_iff.mpr ((canary_ends ho h).mono fun r a₁ h₁ => ?_))
  obtain ⟨h, -, rfl⟩ := h₁
  obtain ⟨stable, canary⟩ := M
  cases canary with
  | none => exact .ret (.ret ⟨rfl, h⟩)
  | some c =>
    refine Ends.bind_iff.mpr (Occasion.utcnow_ends fun a₂ hs₂ _ _ => ?_)
    refine Ends.bind_iff.mpr (Occasion.redis_ok (ho _) rfl fun a₃ hs₃ _ _ => ?_)
    refine Ends.bind_iff.mpr (Occasion.redis_ok (ho _) rfl fun a₄ hs₄ _ _ => ?_)
    obtain ⟨text, -, ht⟩ := h.stores.canary
    have hstores : Stores m a₄.store { stable := (c.version, c.table) } := by
      rw [hs₄, hs₃, hs₂]
      exact (h.stores.setStable (hdump _ _ ht)).deleteCanary
    refine Ends.bind_iff.mpr ((invalidate_ends hstores).mono fun r a₅ h₅ => ?_)
    obtain ⟨rfl, -, h₅⟩ := h₅
    exact .ret (.ret ⟨rfl, h₅⟩)

theorem discard_done (ho : o.Reachable) (h : Mirrors m a.toState M) : DoneAs m o M a .discard := by
  obtain ⟨stable, canary⟩ := M
  have hcount : (Redis.exec 0 (.del [canaryKey]) a.store).1 = .int (if canary.isSome then 1 else 0) := by
    have hcanary := h.stores.canary
    cases canary with
    | none =>
      have hv : value? 0 a.store canaryKey = none := hcanary
      simp [Redis.exec, hv]
    | some c =>
      obtain ⟨text, hv, -⟩ := hcanary
      simp [Redis.exec, hv]
  refine Ends.bind_iff.mpr (Ends.bind_iff.mpr (Occasion.redis_ok (ho _) (by rw [hcount]; rfl) fun a₁ hs₁ _ _ => ?_))
  refine Ends.bind_iff.mpr ((invalidate_ends (hs₁ ▸ h.stores.deleteCanary)).mono fun r a₂ h₂ => ?_)
  obtain ⟨rfl, -, h₂⟩ := h₂
  rw [hcount]
  cases canary <;> exact .ret (.ret ⟨rfl, h₂⟩)

theorem select_done (ho : o.Reachable) (h : Mirrors m a.toState M) : DoneAs m o M a .select := by
  refine Ends.bind_iff.mpr (Ends.bind_iff.mpr ((load_ends ho h).mono fun r a₁ h₁ => ?_))
  obtain ⟨h, -, cache, rfl, hstable, hcanary⟩ := h₁
  obtain ⟨stable, canary⟩ := M
  simp only [hstable, hcanary]
  cases canary with
  | none => exact .ret (.ret ⟨rfl, h⟩)
  | some c =>
    have hactive : c.state.active = true ↔ 0 < c.weight.val ∧ c.rolledBackAt = none := by
      rw [CanaryState.active, Bool.and_eq_true, decide_eq_true_eq, Option.isNone_iff_eq_none]
      exact Iff.rfl
    have hstep : Machine.step m.format o.utcnow o.random ⟨stable, some c⟩ .select = (.ok (.selected (if c.state.active ∧
        o.random * 100 < c.state.weight then (c.table, ⟨canaryName, c.version⟩) else (stable.2, ⟨stableName, stable.1⟩))),
        ⟨stable, some c⟩) := by
      simp only [Machine.step, Machine.select, hactive, and_assoc]
      rfl
    rw [hstep]
    show Ends _ (ite _ _ _) _ _
    split
    · rename_i hact
      refine Ends.bind_iff.mpr (Occasion.random_ends fun a₂ hs₂ hc₂ _ => ?_)
      have h := h.keep hs₂ hc₂
      show Ends _ (ite _ _ _) _ _
      split
      · rename_i hdraw
        rw [if_pos ⟨hact, hdraw⟩]
        exact .ret (.ret ⟨rfl, h⟩)
      · rename_i hdraw
        rw [if_neg fun hc => hdraw hc.2]
        exact .ret (.ret ⟨rfl, h⟩)
    · rename_i hact
      rw [if_neg fun hc => hact hc.1]
      exact .ret (.ret ⟨rfl, h⟩)

theorem stable_done (ho : o.Reachable) (h : Mirrors m a.toState M) : DoneAs m o M a .stable := by
  refine Ends.bind_iff.mpr (Ends.bind_iff.mpr ((load_ends ho h).mono fun r a₁ h₁ => ?_))
  obtain ⟨h, -, cache, rfl, hstable, -⟩ := h₁
  exact .ret (.ret ⟨by rw [hstable]; rfl, h⟩)

theorem canary_done (ho : o.Reachable) (h : Mirrors m a.toState M) : DoneAs m o M a .canary := by
  refine Ends.bind_iff.mpr ((canary_ends ho h).mono fun r a₁ h₁ => ?_)
  obtain ⟨h, -, rfl⟩ := h₁
  exact .ret ⟨rfl, h⟩

/-- One action. -/
theorem action_done (hdump : m.format.RoundTrips) (ho : o.Reachable)
    (h : Mirrors m a.toState M) (action : Action) : DoneAs m o M a action := by
  cases action with
  | publish => exact publish_done hdump ho h
  | setWeight => exact setWeight_done hdump ho h
  | rollBack => exact rollBack_done hdump ho h
  | promote => exact promote_done hdump ho h
  | discard => exact discard_done ho h
  | select => exact select_done ho h
  | stable => exact stable_done ho h
  | canary => exact canary_done ho h

theorem perform_done (hdump : m.format.RoundTrips) (ho : o.Reachable) {s : State} (h : Mirrors m s M) (action : Action) :
    ((action.call m).perform o s).1 = (M.step m.format o.utcnow o.random action).1 ∧
      Mirrors m ((action.call m).perform o s).2 (M.step m.format o.utcnow o.random action).2 := by
  have hdone : DoneAs m o M { toState := s } action := action_done hdump ho h action
  have hmanager : (action.call m).manager = m := by cases action <;> rfl
  unfold Call.perform
  rw [hmanager]
  exact hdone

/-- Any number of actions. -/
theorem performAll_done (hdump : m.format.RoundTrips) : ∀ {actions : List (Action × Occasion)} {s : State} {M : Machine},
    (∀ a ∈ actions, a.2.Reachable) → Mirrors m s M →
    (m.actions actions s).1 = (M.run m.format actions).1 ∧
      Mirrors m (m.actions actions s).2 (M.run m.format actions).2
  | [], _, _, _, h => ⟨rfl, h⟩
  | (action, o) :: actions, s, M, ho, h => by
    obtain ⟨hr, h⟩ := perform_done hdump (ho _ List.mem_cons_self) h action
    obtain ⟨hrs, h⟩ := performAll_done hdump (fun a ha => ho a (List.mem_cons_of_mem _ ha)) h
    exact ⟨congrArg₂ List.cons hr hrs, h⟩

end Calls

/-- A new manager over a Redis that holds what some machine is in goes on as that machine. -/
theorem runs_as_machine {m : RolloutManager} (hdump : m.format.RoundTrips) {s : State} {M : Machine}
    (hstores : Stores m s.store M) (hnew : (s.cache m.replica).fetchedAt = none) {actions : List (Action × Occasion)}
    (ho : ∀ a ∈ actions, a.2.Reachable) : RunsAsMachine m s M actions := by
  obtain ⟨hresults, h⟩ := performAll_done hdump ho ⟨hstores, Or.inl hnew⟩
  refine ⟨hresults, h.stores, fun state text hstored hback => ?_⟩
  have hcanary := h.stores.canary
  split at hcanary
  · rw [hcanary] at hstored
    cases hstored
  · rename_i c hc
    obtain ⟨_, hv, -⟩ := hcanary
    rw [hv] at hstored
    cases hstored
    exact c.withdrawn hback

/-! ### A candidate that is promoted -/

namespace OneManager
open StaleReplica (text table format isA manager versionA)

theorem isA_a : isA (table "a") = true := by decide

theorem text_b : text "b" ≠ text "a" := by decide

theorem fromText_b : format.fromText (text "b") = some (table "b") := by
  simp only [format, text_b, if_false, if_true]

theorem format_roundTrips : format.RoundTrips := by
  have isA_b : isA (table "b") = false := by decide
  intro t c h
  simp only [format] at h ⊢
  split at h
  · cases h
    simp only [isA_a, if_true]
  · split at h
    · cases h
      simp only [isA_b, Bool.false_eq_true, if_false, text_b, if_true]
    · cases h

/-- A tenth of a second passes before every operation. -/
def occasion : Occasion where
  utcnow := "2026-01-01T00:00:00+00:00"
  random := 1 / 4
  elapsed _ := 1 / 10
  drawn := by norm_num
  monotone _ := by norm_num

def half : Weight := ⟨50, by decide⟩

theorem stores_nothing : Stores (manager 0) ({} : State).store { stable := (versionA, table "a") } := by
  refine ⟨Or.inl ⟨rfl, ?_⟩, rfl, rfl⟩
  simp only [manager, format, isA_a, if_true]

theorem promoted_runs_as_machine : RunsAsMachine (manager 0) {} { stable := (versionA, table "a") }
    [(.publish (text "b") half none, occasion), (.select, occasion), (.promote, occasion), (.stable, occasion)] := by
  refine runs_as_machine (m := manager 0) format_roundTrips stores_nothing rfl fun a ha n => ?_
  simp only [List.mem_cons, List.not_mem_nil, or_false] at ha
  rcases ha with rfl | rfl | rfl | rfl <;> rfl

end OneManager
end NexusGate.Gateway.Rollout
