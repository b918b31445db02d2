import NexusGate.Theorems.Gateway.RolloutMachine

/-! # The models that are listed

`GET /v1/models` lists the aliases of the table that the gateway was started with, a request is checked against
the table that the rollout picks. The two have the same aliases in the runs in which every table that is promoted
has the aliases of the first. -/

namespace NexusGate.Gateway.Rollout
open Async Async.System Redis

namespace RolloutManager
variable (self : RolloutManager)

/-- The ids of `list_models`: the aliases of the router's own table, which is the manager's fallback. -/
def listModels : List String := self.fallback.routes.keys

/-- How `complete` begins: whether the table that serves the request has its alias. -/
def accepts (model : String) : Program Bool := do
  let (config, _) ← self.select
  return (config.routes.lookup model).isSome

end RolloutManager

/-- The cache of the replica is still in use. -/
def RolloutManager.fresh (self : RolloutManager) (s : State) : Bool :=
  (s.cache self.replica).fetchedAt.any fun t => s.clock self.replica - t < self.settings.refreshSeconds

/-- No canary takes requests: none is stored that does, nor does the replica still have one in use. -/
structure NoActiveCanary (m : RolloutManager) (s : State) : Prop where
  stored : ∀ state text, s.stored = some (.str (.canary state text)) → state.active = false
  cached : ∀ c, m.fresh s = true → (s.cache m.replica).canary = some c → c.1.active = false

/-- Whatever a request meets, it is accepted exactly for the models that are listed. -/
def Advertised (m : RolloutManager) (s : State) : Prop :=
  ∀ (o : Occasion) model,
    ((m.accepts model).run (o.answer m.replica) { toState := s }).1 = .ok (decide (model ∈ m.listModels))

/-- A replica of a gateway that was started with `base`. -/
structure RolloutManager.StartedWith (format : TableFormat) (base : RoutingConfig) (m : RolloutManager) : Prop where
  format : m.format = format
  fallback : m.fallback = base

/-- All calls are made on replicas of one gateway. -/
def OneGateway (format : TableFormat) (base : RoutingConfig) : system.World → system.Act → Prop
  | _, .start _ c => c.manager.StartedWith format base
  | _, _ => True

/-- In every run of a gateway whose steps meet `P`, the models that a replica lists are those it accepts, wherever no
    canary is active. -/
def ListsWhatItAccepts (P : system.World → system.Act → Prop) (format : TableFormat) (base : RoutingConfig) : Prop :=
  ∀ w, World.Reaches (fun w a => OneGateway format base w a ∧ P w a) (quiet {}) w →
    ∀ m : RolloutManager, m.StartedWith format base → NoActiveCanary m w.state → Advertised m w.state

/-- Two tables have the same aliases. -/
def SameAliases (t t' : RoutingConfig) : Prop := ∀ model, model ∈ t.routes ↔ model ∈ t'.routes

/-- What is stored as the stable table has the aliases of `base`, if it is a table. -/
def Blob.Keeps (format : TableFormat) (base : RoutingConfig) (b : Blob) : Prop :=
  ∀ version text promotedAt t, b = .stable version text promotedAt → format.fromText text = some t → SameAliases t base

/-- A table that is promoted has the aliases of the first. -/
def PromotesSameAliases (format : TableFormat) (base : RoutingConfig) (w : system.World) : system.Act → Prop
  | .op i _ => ∀ c b k, w.threads i = some ⟨c, .op (.redis (.set stableKey b none false)) k⟩ → b.Keeps format base
  | _ => True

/-! ### What a call may write -/

/-- The stable table that a replica holds has the aliases of the start-up table. -/
def Cached.Keeps (base : RoutingConfig) (cache : Cached) : Prop := ∀ v t, cache.stable = some (v, t) → SameAliases t base

section Follow
variable (format : TableFormat) (base : RoutingConfig)

/-- What an operation may be told when all that is stored or cached keeps the aliases. -/
def Answered : (e : Op) → Except Exn e.Reply → Prop
  | .redis c, r => c = .mget [stableKey, canaryKey] → ∀ b rest, r = .ok (.bulks (some b :: rest)) → b.Keeps format base
  | .readCache _, r => ∀ cache, r = .ok cache → cache.Keeps base
  | _, _ => True

/-- What a call may do. -/
def Op.keeps : Op → Prop
  | .redis c => stableKey ∉ c.writes ∨ ∃ b, c = .set stableKey b none false
  | .writeCache _ cache => cache.Keeps base
  | _ => True

/-- A call writes no stable table with other aliases, as long as what it reads has none. -/
def aliasMonitor : Monitor Op Op.Reply Exn Unit where
  may _ e := e.keeps base
  next _ e r _ := Answered format base e r

/-- Whatever it is told, the coroutine keeps the aliases. -/
def KeepsAliases {α : Type} (p : Program α) : Prop := Follows (aliasMonitor format base) (fun _ _ => True) p ()

end Follow

section Follow
variable {m : RolloutManager} {base : RoutingConfig} {α β : Type}

theorem KeepsAliases.call {e : Op} (he : e.keeps base) : KeepsAliases m.format base (.call e) :=
  Follows.call_iff.mpr ⟨he, fun _ _ _ => trivial⟩

theorem KeepsAliases.redis {c : Cmd Blob} (hc : stableKey ∉ c.writes) : KeepsAliases m.format base (redis c) :=
  .call (Or.inl hc)

theorem KeepsAliases.bind {p : Program α} {f : α → Program β} (hp : KeepsAliases m.format base p)
    (hf : ∀ a, KeepsAliases m.format base (f a)) : KeepsAliases m.format base (p.bind f) :=
  Follows.bind hp (fun a _ _ => hf a) fun _ _ _ => trivial

theorem KeepsAliases.attempt {p : Program α} (hp : KeepsAliases m.format base p) : KeepsAliases m.format base p.attempt :=
  Follows.attempt_iff.mpr hp

/-- Either the pair of both parts, or nothing. -/
theorem pair_stable {x : Option (Option (String × RoutingConfig))} {y : Option (Option (CanaryState × RoutingConfig))}
    {now : ℚ} {v : String × RoutingConfig}
    (h : (match x, y with
      | some stable, some canary => ({ stable, canary, fetchedAt := some now } : Cached)
      | _, _ => { fetchedAt := some now }).stable = some v) : x = some (some v) := by
  cases x with
  | none => cases h
  | some x =>
    cases y with
    | none => cases h
    | some y => exact congrArg some h

theorem pair_canary {x : Option (Option (String × RoutingConfig))} {y : Option (Option (CanaryState × RoutingConfig))}
    {now : ℚ} {c : CanaryState × RoutingConfig}
    (h : (match x, y with
      | some stable, some canary => ({ stable, canary, fetchedAt := some now } : Cached)
      | _, _ => { fetchedAt := some now }).canary = some c) : y = some (some c) := by
  cases x with
  | none => cases h
  | some x =>
    cases y with
    | none => cases h
    | some y => exact congrArg some h

theorem parse_stable {stableRaw canaryRaw : Option Blob} {now : ℚ} {v : String} {t : RoutingConfig}
    (h : (m.parse stableRaw canaryRaw now).stable = some (v, t)) :
    ∃ text promotedAt, stableRaw = some (.stable v text promotedAt) ∧ m.format.fromText text = some t := by
  have hstable := pair_stable h
  split at hstable
  · cases hstable
  · cases hstable
  · rename_i version text promotedAt
    obtain ⟨t', ht', heq⟩ := Option.map_eq_some_iff.mp hstable
    cases heq
    exact ⟨text, promotedAt, rfl, ht'⟩
  · cases hstable

theorem parse_canary {stableRaw canaryRaw : Option Blob} {now : ℚ} {c : CanaryState × RoutingConfig}
    (h : (m.parse stableRaw canaryRaw now).canary = some c) :
    ∃ text, canaryRaw = some (.canary c.1 text) ∧ m.format.fromText text = some c.2 := by
  have hcanary := pair_canary h
  split at hcanary
  · cases hcanary
  · cases hcanary
  · rename_i state text
    obtain ⟨t, ht, heq⟩ := Option.map_eq_some_iff.mp hcanary
    cases heq
    exact ⟨text, rfl, ht⟩
  · cases hcanary

theorem parse_keeps {stableRaw canaryRaw : Option Blob} {now : ℚ}
    (h : ∀ b, stableRaw = some b → b.Keeps m.format base) : (m.parse stableRaw canaryRaw now).Keeps base := by
  intro v t ht
  obtain ⟨text, promotedAt, hraw, hfrom⟩ := parse_stable ht
  exact h _ hraw _ _ _ _ rfl hfrom

theorem load_keeps : KeepsAliases m.format base m.load := by
  refine .bind (.call trivial) fun now => .bind (.call trivial) fun cache => ?_
  split
  · trivial
  · refine Follows.bind_iff.mpr (Follows.attempt_iff.mpr (Follows.call_iff.mpr ⟨Or.inl (by simp [Cmd.writes]), fun r _ hr => ?_⟩))
    refine KeepsAliases.bind (.call ?_) fun _ => trivial
    show Cached.Keeps base _
    split
    · rename_i stableRaw canaryRaw
      refine parse_keeps fun b hb => hr rfl b [canaryRaw] ?_
      rw [hb]
    · exact fun v t ht => nomatch ht

theorem invalidate_keeps : KeepsAliases m.format base m.invalidate := by
  refine Follows.bind_iff.mpr (Follows.call_iff.mpr ⟨trivial, fun r _ hr => ?_⟩)
  cases r with
  | error _ => trivial
  | ok cache => exact KeepsAliases.call (hr cache rfl)

theorem canary_keeps : KeepsAliases m.format base m.canary := load_keeps.bind fun _ => trivial

theorem writeCanary_keeps {state : CanaryState} {configText : Option String} {config : RoutingConfig} :
    KeepsAliases m.format base (m.writeCanary state configText config) :=
  .bind (.redis (by simp [Cmd.writes, canaryKey, stableKey])) fun _ => invalidate_keeps

theorem publish_keeps {configText : String} {weight : Int} {note : Option String} :
    KeepsAliases m.format base (m.publish configText weight note) := by
  unfold RolloutManager.publish
  split
  · trivial
  · exact .bind (.call trivial) fun _ => .bind writeCanary_keeps fun _ =>
      .bind (.redis (by simp [Cmd.writes, statsKey, stableKey])) fun _ => trivial

theorem setWeight_keeps {weight : Int} : KeepsAliases m.format base (m.setWeight weight) := by
  refine canary_keeps.bind fun canary => ?_
  split
  · trivial
  · exact .bind (.call trivial) fun _ => .bind writeCanary_keeps fun _ => trivial

theorem rollBack_keeps {reason : String} : KeepsAliases m.format base (m.rollBack reason) := by
  refine canary_keeps.bind fun canary => ?_
  split
  · trivial
  · exact .bind (.call trivial) fun _ => .bind (.call trivial) fun _ => .bind writeCanary_keeps fun _ => trivial

theorem discard_keeps : KeepsAliases m.format base m.discard := by
  refine .bind (.redis (by simp [Cmd.writes, canaryKey, stableKey])) fun r => .bind invalidate_keeps fun _ => ?_
  split <;> trivial

theorem promote_keeps : KeepsAliases m.format base m.promote := by
  refine canary_keeps.bind fun canary => ?_
  split
  · trivial
  · exact .bind (.call trivial) fun _ => .bind (.call (Or.inr ⟨_, rfl⟩)) fun _ =>
      .bind (.redis (by simp [Cmd.writes, canaryKey, stableKey])) fun _ => .bind invalidate_keeps fun _ => trivial

theorem counter_keeps {v : Option Blob} : KeepsAliases m.format base (RolloutManager.counter v) := by
  unfold RolloutManager.counter
  split <;> trivial

theorem stats_keeps {version : String} : KeepsAliases m.format base (RolloutManager.stats version) := by
  refine .bind (.redis (by simp [Cmd.writes])) fun r => ?_
  split
  · exact counter_keeps.bind fun _ => counter_keeps.bind fun _ => trivial
  · trivial

theorem maybeRollBack_keeps {version : String} : KeepsAliases m.format base (m.maybeRollBack version) := by
  refine canary_keeps.bind fun canary => ?_
  match canary with
  | none => trivial
  | some (state, _) =>
    show KeepsAliases m.format base (ite _ _ _)
    split
    · trivial
    · refine stats_keeps.bind fun (requests, errors) => ?_
      show KeepsAliases m.format base (ite _ _ (ite _ _ (ite _ _ _)))
      split_ifs
      · trivial
      · trivial
      · trivial
      · exact rollBack_keeps.bind fun _ => trivial

theorem pipeline_keeps : ∀ {cs : List (Cmd Blob)}, (∀ c ∈ cs, stableKey ∉ c.writes) → KeepsAliases m.format base (pipeline cs)
  | [], _ => trivial
  | c :: cs, h => by
    obtain ⟨hc, hcs⟩ := List.forall_mem_cons.mp h
    refine .bind (.attempt (.redis hc)) fun r => (pipeline_keeps hcs).bind fun _ => ?_
    cases r <;> trivial

theorem record_keeps {variant : Variant} {ok : Bool} : KeepsAliases m.format base (m.record variant ok) := by
  have hkey : stableKey ∉ [statsKey] := by decide
  refine .bind (.attempt (pipeline_keeps ?_)) fun r => ?_
  · intro c hc
    rw [List.mem_append, List.mem_singleton] at hc
    rcases hc with rfl | hc
    · exact hkey
    · split at hc
      · cases hc
      · obtain rfl := List.mem_singleton.mp hc
        exact hkey
  · cases r with
    | error _ => trivial
    | ok _ =>
      show KeepsAliases m.format base (ite _ _ _)
      split
      · exact maybeRollBack_keeps
      · trivial

theorem select_keeps : KeepsAliases m.format base m.select := by
  refine load_keeps.bind fun cache => ?_
  match cache.canary with
  | none => trivial
  | some (state, config) =>
    show KeepsAliases m.format base (ite _ _ _)
    split
    · refine .bind (.call trivial) fun u => ?_
      show KeepsAliases m.format base (ite _ _ _)
      split <;> trivial
    · trivial

theorem body_keeps (c : Call) : KeepsAliases c.manager.format base c.body := by
  cases c with
  | publish m => exact (publish_keeps (m := m)).bind fun _ => trivial
  | setWeight m => exact (setWeight_keeps (m := m)).bind fun _ => trivial
  | rollBack m => exact (rollBack_keeps (m := m)).bind fun _ => trivial
  | promote m => exact (promote_keeps (m := m)).bind fun _ => trivial
  | discard m => exact (discard_keeps (m := m)).bind fun _ => trivial
  | stable m => exact KeepsAliases.bind (m := m) (p := m.stable) (load_keeps.bind fun _ => trivial) fun _ => trivial
  | canary m => exact (canary_keeps (m := m)).bind fun _ => trivial
  | select m => exact (select_keeps (m := m)).bind fun _ => trivial
  | record m => exact (record_keeps (m := m)).bind fun _ => trivial

end Follow

/-! ### Every step -/

/-- The stable table in Redis and those in the replicas' copies have the aliases of the start-up table. -/
structure State.Keeps (format : TableFormat) (base : RoutingConfig) (s : State) : Prop where
  stored : ∀ b, value? 0 s.store stableKey = some (.str b) → b.Keeps format base
  cached : ∀ r, (s.cache r).Keeps base

section Steps
variable {format : TableFormat} {base : RoutingConfig} {s s' : State} {ch : Choice}

/-- A command that may write the stable table, but only one that keeps the aliases. -/
theorem State.Keeps.redis (h : s.Keeps format base) {c : Cmd Blob} (hc : stableKey ∉ c.writes ∨ ∃ b, c = .set stableKey b none false)
    (hset : ∀ b, c = .set stableKey b none false → b.Keeps format base) :
    State.Keeps format base { s with store := (Redis.exec 0 c s.store).2 } := by
  refine ⟨fun b hb => ?_, h.cached⟩
  rcases hc with hc | ⟨b', rfl⟩
  · rw [value?_congr (exec_frame hc)] at hb
    exact h.stored b hb
  · rw [exec_set_forever, value?_set] at hb
    cases hb
    exact hset _ rfl

theorem told_mget (h : s.Keeps format base) {b : Blob} {rest : List (Option Blob)}
    (hr : (Redis.exec 0 (.mget [stableKey, canaryKey]) s.store).1 = .bulks (some b :: rest)) : b.Keeps format base := by
  have hb := (List.cons.inj (Reply.bulks.inj hr)).1
  dsimp only at hb
  split at hb
  next b' hv =>
    cases hb
    exact h.stored _ hv
  · cases hb

theorem update_keeps {cache : Cached} {r' : Nat} (h : s.Keeps format base) (hcache : cache.Keeps base) (r : Nat) :
    (Function.update s.cache r' cache r).Keeps base := by
  rcases eq_or_ne r r' with rfl | hne
  · rw [Function.update_self]
    exact hcache
  · rw [Function.update_of_ne hne]
    exact h.cached r

theorem exec_keeps {e : Op} {r : Except Exn e.Reply} (h : s.Keeps format base) (he : e.keeps base)
    (hset : ∀ b, e = .redis (.set stableKey b none false) → b.Keeps format base) (hex : exec e ch s = some (r, s')) :
    Answered format base e r ∧ s'.Keeps format base := by
  cases e with
  | redis c =>
    have hwrite := h.redis he fun b hb => hset b (congrArg Op.redis hb)
    cases ch <;> simp only [exec, Option.some.injEq, Prod.mk.injEq, reduceCtorEq] at hex
    · obtain ⟨rfl, rfl⟩ := hex
      refine ⟨?_, hwrite⟩
      rintro rfl b rest hr
      exact told_mget h (Except.ok.inj hr)
    · obtain ⟨rfl, rfl⟩ := hex
      refine ⟨fun _ _ _ hr => (by cases hr), ?_⟩
      split
      · exact hwrite
      · exact h
  | random =>
    cases ch <;> simp only [exec, Option.ite_none_right_eq_some, Option.some.injEq, Prod.mk.injEq, reduceCtorEq] at hex
    exact ⟨trivial, hex.2.2 ▸ h⟩
  | readCache r' =>
    cases ch <;> simp only [exec, Option.some.injEq, Prod.mk.injEq, reduceCtorEq] at hex
    obtain ⟨rfl, rfl⟩ := hex
    refine ⟨fun cache hr => ?_, h⟩
    cases hr
    exact h.cached r'
  | writeCache r' cache =>
    cases ch <;> simp only [exec, Option.some.injEq, Prod.mk.injEq, reduceCtorEq] at hex
    obtain ⟨rfl, rfl⟩ := hex
    exact ⟨trivial, h.stored, update_keeps h he⟩
  | edit r' state =>
    cases ch <;> simp only [exec, Option.some.injEq, Prod.mk.injEq, reduceCtorEq] at hex
    obtain ⟨rfl, rfl⟩ := hex
    exact ⟨trivial, h.stored, update_keeps h (h.cached r')⟩
  | _ =>
    cases ch <;> simp only [exec, Option.some.injEq, Prod.mk.injEq, reduceCtorEq] at hex
    exact ⟨trivial, hex.2 ▸ h⟩

/-- What holds of the state, and of the calls on the board. -/
structure Aligned (format : TableFormat) (base : RoutingConfig) (s : State) (Γ : Nat → Option (Call × Unit)) : Prop where
  state : s.Keeps format base
  calls : ∀ i c, Γ i = some (c, ()) → c.manager.StartedWith format base

/-- Every call is watched for the aliases of the tables it stores. -/
def aliasWatch (base : RoutingConfig) : Watch system where
  G := Unit
  monitor c := aliasMonitor c.manager.format base
  first _ := ()
  last _ _ _ := True

theorem aliasWatch_sound : (aliasWatch base).Sound := body_keeps

theorem Aligned.clear {Γ : Nat → Option (Call × Unit)} {i : Nat} (h : Aligned format base s Γ) :
    Aligned format base s (Function.update Γ i none) :=
  ⟨h.state, fun j c hj => h.calls j c (clear_entry (i := i) hj).2⟩

theorem Aligned.put {Γ : Nat → Option (Call × Unit)} {i : Nat} {c : Call} (h : Aligned format base s Γ)
    (hc : c.manager.StartedWith format base) : Aligned format base s (Function.update Γ i (some (c, ()))) := by
  refine ⟨h.state, fun j c' hj => ?_⟩
  rcases board_entry hj with ⟨-, heq⟩ | ⟨-, hj⟩
  · cases heq
    exact hc
  · exact h.calls j c' hj

theorem alias_rules : Rules (aliasWatch base) (fun w a => OneGateway format base w a ∧ PromotesSameAliases format base w a)
    (fun s _ Γ => Aligned format base s Γ) where
  start _ h _ _ hP := h.put hP.1
  op {w Γ i ch c g e r s} _ h hi hth hmay hex hP := by
    obtain ⟨k, hk⟩ := hth
    have hc := h.calls i c hi
    obtain ⟨htold, hs⟩ := exec_keeps h.state hmay (fun b hb => hP.2 c b (hb ▸ k) (by subst hb; exact hk)) hex
    rw [← hc.format] at htold
    exact ⟨(), htold, Aligned.put ⟨hs, h.calls⟩ hc⟩
  ended h _ _ := h.clear
  kill _ h _ _ _ := h.clear
  env {w Γ b s} _ h hs _ := by
    refine ⟨?_, h.calls⟩
    simp only [system] at hs
    split at hs
    · cases hs
      exact ⟨h.state.stored, h.state.cached⟩
    · cases hs

end Steps

/-! ### A request -/

section Request
variable {format : TableFormat} {base : RoutingConfig} {m : RolloutManager} {o : Occasion} {a : Alone}

/-- What a replica sees of the tables. -/
structure Cached.Sees (base : RoutingConfig) (cache : Cached) : Prop where
  keeps : cache.Keeps base
  inactive : ∀ c, cache.canary = some c → c.1.active = false

theorem parse_sees {s : State} {stableRaw canaryRaw : Option Blob} (hs : s.Keeps m.format base) (hc : NoActiveCanary m s)
    (hr : (Redis.exec 0 (.mget [stableKey, canaryKey]) s.store).1 = .bulks [stableRaw, canaryRaw]) (now : ℚ) :
    (m.parse stableRaw canaryRaw now).Sees base := by
  refine ⟨parse_keeps fun b hb => told_mget hs (hb ▸ hr), fun c hcanary => ?_⟩
  obtain ⟨text, rfl, -⟩ := parse_canary hcanary
  have hb := (List.cons.inj (List.cons.inj (Reply.bulks.inj hr)).2).1
  dsimp only at hb
  split at hb
  next b hv =>
    cases hb
    exact hc.stored _ _ hv
  · cases hb

/-- A command whose connection is lost or not. -/
theorem redis_either {c : Cmd Blob} {Q : Except Exn (Redis.Reply Blob) → Alone → Prop}
    (hok : ∀ a', Q (if Reply.failed (Redis.exec 0 c a.store).1 then .error .redisError else .ok (Redis.exec 0 c a.store).1) a')
    (hlost : ∀ a', Q (.error .redisError) a') : Ends (o.answer m.replica) (redis c) a Q := by
  cases h : o.lost a.count with
  | none => exact Occasion.redis_ends h fun a' _ _ _ => hok a'
  | some applied =>
    refine .call ?_
    simp only [Occasion.answer, Occasion.choice, h, exec]
    exact hlost _

/-- Time only moves on. -/
theorem clock_later {Q : Except Exn ℚ → Alone → Prop}
    (hq : ∀ now a', a.clock m.replica ≤ now → a'.store = a.store → a'.cache = a.cache → Q (.ok now) a') :
    Ends (o.answer m.replica) (.call (Op.clock m.replica)) a Q := by
  refine .call (hq _ _ ?_ rfl rfl)
  show _ ≤ Function.update a.clock m.replica (a.clock m.replica + o.elapsed a.count) m.replica
  rw [Function.update_self]
  exact le_add_of_nonneg_right (o.monotone _)

theorem load_sees (hs : a.toState.Keeps m.format base) (hc : NoActiveCanary m a.toState) :
    Ends (o.answer m.replica) m.load a fun r _ => ∃ cache, r = .ok cache ∧ cache.Sees base := by
  refine Ends.bind_iff.mpr (clock_later fun now a₁ hnow hs₁ hc₁ => ?_)
  refine Ends.bind_iff.mpr (Occasion.readCache_ends fun a₂ hs₂ hc₂ _ => ?_)
  show Ends _ (ite _ _ _) _ _
  rw [hc₁]
  split
  · rename_i hfresh
    refine .ret ⟨_, rfl, hs.cached _, fun c => hc.cached c ?_⟩
    obtain ⟨t, ht, hlt⟩ := (Option.any_eq_true _ _).mp hfresh
    exact (Option.any_eq_true _ _).mpr ⟨t, ht, decide_eq_true (by linarith [of_decide_eq_true hlt])⟩
  · obtain ⟨stableRaw, canaryRaw, hr⟩ := @mget_reply a₂.store
    have hparsed := parse_sees hs hc ((congrArg (fun t => (Redis.exec 0 (.mget [stableKey, canaryKey]) t).1)
      (hs₂.trans hs₁)).symm.trans hr) now
    have hnothing : Cached.Sees base { fetchedAt := some now } := ⟨fun _ _ h => (nomatch h), fun _ h => (nomatch h)⟩
    refine Ends.bind_iff.mpr (.attempt (redis_either (fun a₃ => ?_) fun a₃ => ?_))
    · rw [hr]
      exact Ends.bind_iff.mpr (Occasion.writeCache_ends fun a₄ _ _ _ => .ret ⟨_, rfl, hparsed⟩)
    · exact Ends.bind_iff.mpr (Occasion.writeCache_ends fun a₄ _ _ _ => .ret ⟨_, rfl, hnothing⟩)

theorem select_sees (hs : a.toState.Keeps m.format base) (hc : NoActiveCanary m a.toState) (hbase : m.fallback = base) :
    Ends (o.answer m.replica) m.select a fun r _ => ∃ config variant, r = .ok (config, variant) ∧ SameAliases config base := by
  refine Ends.bind_iff.mpr ((load_sees hs hc).mono fun r a₁ h₁ => ?_)
  obtain ⟨cache, rfl, hkeeps, hinactive⟩ := h₁
  have hsame : SameAliases (cache.stable.getD (m.format.fingerprint m.fallback, m.fallback)).2 base := by
    cases hstable : cache.stable with
    | none => exact hbase ▸ fun _ => Iff.rfl
    | some vt => exact hkeeps _ _ hstable
  cases hcanary : cache.canary with
  | none =>
    simp only [hcanary]
    exact .ret ⟨_, _, rfl, hsame⟩
  | some c =>
    simp only [hcanary, hinactive c hcanary]
    exact .ret ⟨_, _, rfl, hsame⟩

theorem advertised {s : State} (hs : s.Keeps m.format base) (hc : NoActiveCanary m s) (hbase : m.fallback = base) :
    Advertised m s := by
  intro o model
  show Ends (o.answer m.replica) (m.accepts model) { toState := s } fun r _ => r = .ok (decide (model ∈ m.listModels))
  refine Ends.bind_iff.mpr ((select_sees (a := { toState := s }) hs hc hbase).mono fun r a₁ h₁ => ?_)
  obtain ⟨config, variant, rfl, hsame⟩ := h₁
  refine .ret (congrArg Except.ok ?_)
  rw [Bool.eq_iff_iff, decide_eq_true_iff, AList.lookup_isSome, hsame, RolloutManager.listModels, hbase]
  exact Iff.rfl

end Request

/-- The models are those that are accepted as long as no table with other aliases is promoted. -/
theorem lists_what_it_accepts (format : TableFormat) (base : RoutingConfig) :
    ListsWhatItAccepts (PromotesSameAliases format base) format base := by
  intro w hr m hm hc
  obtain ⟨Γ, -, h⟩ := alias_rules.reaches aliasWatch_sound hr
    ⟨fun _ => none, fun _ => rfl, ⟨fun _ hb => (nomatch hb), fun _ _ _ ht => (nomatch ht)⟩, fun _ _ hi => (nomatch hi)⟩
  exact advertised (hm.format ▸ h.state) hc hm.fallback

/-! ### A table with another alias -/

namespace OtherAlias

def text (name : String) : String :=
  "\x7b\"routes\":\x7b\"" ++ name ++ "\":[\x7b\"name\":\"a\",\"provider\":\"mock\",\"model\":\"mock/a\"," ++
  "\"api_base\":null,\"timeout_seconds\":null,\"max_retries\":0,\"pricing\":null,\"self_hosted\":false," ++
  "\"options\":\x7b\x7d\x7d]\x7d\x7d"

def table (name : String) : RoutingConfig where
  routes := AList.singleton name [{ name := "a", provider := "mock", model := "mock/a" }]
  nonempty := by simp
  named := by simp [Routes.all]

/-- The table has the alias `default`. -/
def hasDefault (c : RoutingConfig) : Bool := (c.routes.lookup "default").isSome

/-- Two tables, their JSON texts and their fingerprints. -/
def format : TableFormat where
  fromText t := if t = text "default" then some (table "default") else if t = text "fast" then some (table "fast") else none
  modelDumpJson c := if hasDefault c then text "default" else text "fast"
  fingerprint c := if hasDefault c then "e3b0c44298fc" else "1c149afbf4c8"

def manager : RolloutManager where
  replica := 0
  format
  fallback := table "default"

/-- A canary is published and promoted. -/
def acts : List system.Act :=
  [.start 0 (.publish manager (text "fast") 10 none), .op 0 (.text "t0"), .op 0 .ok, .op 0 .ok, .op 0 .ok, .op 0 .ok,
    .start 1 (.promote manager), .op 1 .ok, .op 1 .ok, .op 1 .ok, .op 1 .ok, .op 1 (.text "t1"), .op 1 .ok, .op 1 .ok,
    .op 1 .ok, .op 1 .ok]

theorem startedWith : manager.StartedWith format (table "default") := ⟨rfl, rfl⟩

theorem oneGateway (w : system.World) :
    ∀ a ∈ acts, OneGateway format (table "default") w a ∧ World.anyStep w a := by
  simp [acts, OneGateway, World.anyStep, Call.manager, startedWith]

/-- Whether a request for the model would be accepted now. -/
def accepted (model : String) (w : system.World) : Option Bool :=
  ((manager.accepts model).run (OneManager.occasion.answer manager.replica) { toState := w.state }).1.toOption

theorem no_canary : ((quiet {}).run acts).any (fun w => w.state.stored.isNone && !manager.fresh w.state) = true := by
  decide +kernel

theorem accepts_fast : ((quiet {}).run acts).bind (accepted "fast") = some true := by decide +kernel

/-- The promoted table's alias is accepted and not listed. -/
theorem not_listsWhatItAccepts : ¬ListsWhatItAccepts World.anyStep format (table "default") := by
  intro h
  obtain ⟨w, hw, haccepts⟩ := Option.bind_eq_some_iff.mp accepts_fast
  have hcanary := no_canary
  rw [hw] at hcanary
  obtain ⟨hstored, hfresh⟩ : w.state.stored = none ∧ manager.fresh w.state = false := by simpa using hcanary
  have hquiet : NoActiveCanary manager w.state :=
    ⟨fun _ _ hs => (by rw [hstored] at hs; cases hs), fun _ hf => (by rw [hfresh] at hf; cases hf)⟩
  have hlisted := h w (World.reaches_of_run (fun a ha w => oneGateway w a ha) hw) manager startedWith hquiet
    OneManager.occasion "fast"
  have hfast : decide ("fast" ∈ manager.listModels) = false := by decide
  rw [accepted, hlisted, hfast] at haccepts
  cases haccepts

end OtherAlias
end NexusGate.Gateway.Rollout
