import NexusGate.Theorems.Gateway.Models
import NexusGate.Theorems.Gateway.RolloutMachine

/-! # What a breaker's name means

Breakers are keyed by the name of a deployment, whichever table it is in. That a name means one deployment is
checked inside one table; across tables it holds in the runs where the start-up table, all tables that are
published and all that are read back from the dumps of these agree. -/

namespace NexusGate.Gateway

/-- A name that both tables define means one deployment. -/
def RoutingConfig.Agrees (t t' : RoutingConfig) : Prop :=
  ∀ d ∈ t.routes.all, ∀ d' ∈ t'.routes.all, d.name = d'.name → d = d'

namespace Rollout
open Async Async.System Redis

/-- The table that a request is given. -/
def table? : system.Event → Option RoutingConfig
  | .ended _ _ (.ok (Result.selected (table, _))) => some table
  | _ => none

/-- The tables that requests were given. How long a request is served from its table is not seen here, so all of
    them may be in use. -/
def handedOut (w : system.World) : List RoutingConfig := w.trace.filterMap table?

/-- The call is made on a replica of the gateway that was started with `base`, and publishes no table that is not in `T`. -/
structure Ours (format : TableFormat) (base : RoutingConfig) (T : Set RoutingConfig) (c : Call) : Prop where
  started : c.manager.StartedWith format base
  publishes : ∀ m text weight note t, c = .publish m text weight note → format.fromText text = some t → t ∈ T

/-- All calls are made on replicas of one gateway, and only tables of `T` are published. -/
def Publishes (format : TableFormat) (base : RoutingConfig) (T : Set RoutingConfig) (_ : system.World) :
    system.Act → Prop
  | .start _ c => Ours format base T c
  | _ => True

/-- In every run that starts with nothing stored and publishes only tables of `T`, a name means one deployment in
    all tables that requests are served from. -/
def NamesMeanOne (format : TableFormat) (base : RoutingConfig) (T : Set RoutingConfig) : Prop :=
  ∀ w, World.Reaches (Publishes format base T) (quiet {}) w →
    ∀ t ∈ handedOut w, ∀ t' ∈ handedOut w, t.Agrees t'

/-! ### Where tables are kept -/

section Within
variable (format : TableFormat) (T : Set RoutingConfig)

/-- A table that is read back from the dump of a table of `T` is in `T` too. -/
def ReadsBack : Prop := ∀ t ∈ T, ∀ t', format.fromText (format.modelDumpJson t) = some t' → t' ∈ T

/-- What parses in this blob is a table of `T`. -/
def Blob.Within : Blob → Prop
  | .stable _ config _ | .canary _ config => ∀ t, format.fromText config = some t → t ∈ T
  | _ => True

/-- Only tables of `T` are cached. -/
structure Cached.Within (cache : Cached) : Prop where
  stable : ∀ x, cache.stable = some x → x.2 ∈ T
  canary : ∀ x, cache.canary = some x → x.2 ∈ T

/-- The strings that are stored, and what is cached. -/
structure State.Within (s : State) : Prop where
  stored : ∀ k ∈ [stableKey, canaryKey], ∀ b, str? 0 s.store k = some b → b.Within format T
  cached : ∀ r, (s.cache r).Within T

/-- Operations that put only tables of `T` anywhere. -/
def Op.Stays : Op → Prop
  | .redis c => (∃ k b, c = .set k b none false ∧ b.Within format T) ∨ c = .del [canaryKey] ∨
      ∀ k ∈ [stableKey, canaryKey], k ∉ c.writes
  | .writeCache _ cache => cache.Within T
  | _ => True

/-- Answers that show only tables of `T`. -/
def Op.Shows : (e : Op) → Except Exn e.Reply → Prop
  | .readCache _, .ok cache => Cached.Within T cache
  | .redis (.mget ks), .ok (.bulks bs) => ks = [stableKey, canaryKey] → ∀ b, some b ∈ bs → Blob.Within format T b
  | _, _ => True

/-- A program that puts only tables of `T` anywhere, as long as it is shown no other. -/
def tableMonitor : Monitor Op Op.Reply Exn Unit where
  may _ e := e.Stays format T
  next _ e r _ := e.Shows format T r

/-- `p` puts only tables of `T` anywhere, and what it returns is as `Q` says. -/
def KeepsTables {α : Type} (Q : α → Prop) (p : Program α) : Prop :=
  Follows (tableMonitor format T) (fun r _ => ∀ a, r = .ok a → Q a) p ()

end Within

namespace KeepsTables
variable {format : TableFormat} {T : Set RoutingConfig} {α β : Type} {Q : α → Prop} {p : Program α}

theorem ret {a : α} (h : Q a) : KeepsTables format T Q (.ret a) := by
  intro b hb
  cases hb
  exact h

theorem throw {x : Exn} : KeepsTables format T Q (.throw x) := fun _ h => by cases h

theorem call {e : Op} (h : e.Stays format T) :
    KeepsTables format T (fun r => e.Shows format T (.ok r)) (.call e) := by
  refine Follows.call_iff.mpr ⟨h, fun r _ hr a ha => ?_⟩
  cases ha
  exact hr

theorem bind {Q' : β → Prop} {f : α → Program β} (hp : KeepsTables format T Q p)
    (hf : ∀ a, Q a → KeepsTables format T Q' (f a)) :
    KeepsTables format T Q' (p.bind f) :=
  Follows.bind hp (fun a _ ha => hf a (ha a rfl)) fun _ _ _ _ h => by cases h

theorem mono {Q' : α → Prop} (h : KeepsTables format T Q p) (hQ : ∀ a, Q a → Q' a) : KeepsTables format T Q' p :=
  Follows.mono (fun _ _ hr a ha => hQ a (hr a ha)) h

theorem map {Q' : β → Prop} {f : α → β} (h : KeepsTables format T Q p) (hf : ∀ a, Q a → Q' (f a)) :
    KeepsTables format T Q' (f <$> p) :=
  h.bind fun a ha => .ret (hf a ha)

theorem attempt (hp : KeepsTables format T Q p) :
    KeepsTables format T (fun r : Except Exn α => ∀ a, r = .ok a → Q a) p.attempt := by
  refine Follows.attempt_iff.mpr (Follows.mono (fun r _ hr o ho => ?_) hp)
  cases ho
  exact hr

/-- A command that does not write the tables. -/
theorem redis {c : Cmd Blob} (h : ∀ k ∈ [stableKey, canaryKey], k ∉ c.writes) :
    KeepsTables format T (fun r => (Op.redis c).Shows format T (.ok r)) (Rollout.redis c) := by
  exact .call (Or.inr (Or.inr h))

/-- A table is stored. -/
theorem set {k : String} {b : Blob} (h : b.Within format T) :
    KeepsTables format T (fun _ => True) (Rollout.redis (.set k b none false)) :=
  KeepsTables.mono (.call (Or.inl ⟨k, b, rfl, h⟩)) fun _ _ => trivial

/-- No command is about the tables. -/
theorem pipeline : ∀ {cs : List (Cmd Blob)}, (∀ c ∈ cs, ∀ k ∈ [stableKey, canaryKey], k ∉ c.writes) →
    KeepsTables format T (fun _ => True) (Rollout.pipeline cs)
  | [], _ => .ret trivial
  | c :: cs, h => by
    refine (redis (h c List.mem_cons_self)).attempt.bind fun r _ => ?_
    refine (pipeline fun c' hc' => h c' (List.mem_cons_of_mem _ hc')).bind fun _ _ => ?_
    cases r with
    | ok a => exact .ret trivial
    | error x => exact .throw

end KeepsTables

/-! ### What a manager does -/

section Calls
variable {m : RolloutManager} {T : Set RoutingConfig}

theorem parse_within {stableRaw canaryRaw : Option Blob} (hs : ∀ b, stableRaw = some b → b.Within m.format T)
    (hc : ∀ b, canaryRaw = some b → b.Within m.format T) (now : ℚ) :
    (m.parse stableRaw canaryRaw now).Within T := by
  refine ⟨fun x hx => ?_, fun x hx => ?_⟩
  · obtain ⟨text, promotedAt, hraw, hparsed⟩ := parse_stable hx
    exact hs _ hraw x.2 hparsed
  · obtain ⟨text, hraw, hparsed⟩ := parse_canary hx
    exact hc _ hraw x.2 hparsed

theorem load_within : KeepsTables m.format T (fun cache => cache.Within T) m.load := by
  have written : ∀ cache : Cached, cache.Within T → KeepsTables m.format T (fun cache => cache.Within T)
      ((Prog.call (Op.writeCache m.replica cache)).bind fun _ => .ret cache) := fun cache h =>
    (KeepsTables.call (e := Op.writeCache m.replica cache) h).bind fun _ _ => .ret h
  refine (KeepsTables.call (e := Op.clock m.replica) trivial).bind fun now _ => ?_
  refine (KeepsTables.call (e := Op.readCache m.replica) trivial).bind fun cache hcache => ?_
  show KeepsTables _ _ _ (ite _ _ _)
  split
  · exact .ret hcache
  · refine (KeepsTables.redis (c := .mget [stableKey, canaryKey]) fun _ _ =>
      List.not_mem_nil).attempt.bind fun reply hreply => ?_
    refine written _ ?_
    split
    · have hblobs := hreply _ rfl rfl
      exact parse_within (fun b hb => hblobs b (by simp [hb])) (fun b hb => hblobs b (by simp [hb])) now
    · exact ⟨fun _ h => (by cases h), fun _ h => (by cases h)⟩

theorem canary_within : KeepsTables m.format T (fun canary => ∀ x, canary = some x → x.2 ∈ T) m.canary :=
  load_within.bind fun _ h => .ret h.canary

theorem stable_of_within {cache : Cached} (h : cache.Within T) :
    (cache.stable.getD (m.format.fingerprint m.fallback, m.fallback)).2 ∈ insert m.fallback T := by
  cases hs : cache.stable with
  | none => exact Set.mem_insert _ _
  | some x => exact Set.mem_insert_of_mem _ (h.stable x hs)

theorem select_within : KeepsTables m.format T (fun r => r.1 ∈ insert m.fallback T) m.select := by
  refine load_within.bind fun cache h => ?_
  have hstable := stable_of_within (m := m) h
  cases hc : cache.canary with
  | none => exact .ret hstable
  | some x =>
    show KeepsTables _ _ _ (ite _ _ _)
    split
    · refine (KeepsTables.call (e := Op.random) trivial).bind fun u _ => ?_
      show KeepsTables _ _ _ (ite _ _ _)
      split
      · exact .ret (Set.mem_insert_of_mem _ (h.canary x hc))
      · exact .ret hstable
    · exact .ret hstable

theorem invalidate_within : KeepsTables m.format T (fun _ => True) m.invalidate := by
  refine (KeepsTables.call (e := Op.readCache m.replica) trivial).bind fun cache hcache => ?_
  have hwithin : Cached.Within T { cache with fetchedAt := none } := ⟨hcache.stable, hcache.canary⟩
  exact (KeepsTables.call (e := Op.writeCache m.replica _) hwithin).mono fun _ _ => trivial

theorem writeCanary_within (hdump : ReadsBack m.format T) {state : CanaryState} {configText : Option String}
    {config : RoutingConfig} (hconfig : config ∈ T)
    (htext : ∀ text, configText = some text → m.format.fromText text = some config) :
    KeepsTables m.format T (fun _ => True) (m.writeCanary state configText config) := by
  have hdumped := hdump config hconfig
  refine (KeepsTables.set ?_).bind fun _ _ => invalidate_within
  show ∀ t, m.format.fromText _ = some t → t ∈ T
  cases configText with
  | none => exact hdumped
  | some written =>
    show ∀ t, m.format.fromText (ite _ _ _) = some t → t ∈ T
    split
    · exact hdumped
    · intro t ht
      rw [htext written rfl] at ht
      cases ht
      exact hconfig

theorem aside {k : String} (hk : k ∈ [stableKey, canaryKey]) : k ∉ [statsKey] := by
  revert hk
  simp only [List.mem_cons, List.not_mem_nil, or_false]
  rintro (rfl | rfl) <;> decide

theorem publish_within (hdump : ReadsBack m.format T) {configText : String} {weight : Int} {note : Option String}
    (hT : ∀ t, m.format.fromText configText = some t → t ∈ T) :
    KeepsTables m.format T (fun _ => True) (m.publish configText weight note) := by
  unfold RolloutManager.publish
  cases ht : m.format.fromText configText with
  | none => exact .throw
  | some t =>
    refine (KeepsTables.call (e := Op.utcnow) trivial).bind fun now _ => ?_
    refine (writeCanary_within hdump (hT t ht) fun text h => by cases h; exact ht).bind fun _ _ => ?_
    exact (KeepsTables.redis (c := .hdel statsKey _) fun k hk => aside hk).bind fun _ _ => .ret trivial

theorem setWeight_within (hdump : ReadsBack m.format T) {weight : Int} :
    KeepsTables m.format T (fun _ => True) (m.setWeight weight) := by
  refine canary_within.bind fun canary hcanary => ?_
  cases canary with
  | none => exact .ret trivial
  | some x =>
    refine (KeepsTables.call (e := Op.edit m.replica _) trivial).bind fun _ _ => ?_
    exact (writeCanary_within hdump (hcanary x rfl) fun _ h => by cases h).bind fun _ _ => .ret trivial

theorem rollBack_within (hdump : ReadsBack m.format T) {reason : String} :
    KeepsTables m.format T (fun _ => True) (m.rollBack reason) := by
  refine canary_within.bind fun canary hcanary => ?_
  cases canary with
  | none => exact .ret trivial
  | some x =>
    refine (KeepsTables.call (e := Op.utcnow) trivial).bind fun now _ => ?_
    refine (KeepsTables.call (e := Op.edit m.replica _) trivial).bind fun _ _ => ?_
    exact (writeCanary_within hdump (hcanary x rfl) fun _ h => by cases h).bind fun _ _ => .ret trivial

theorem promote_within (hdump : ReadsBack m.format T) : KeepsTables m.format T (fun _ => True) m.promote := by
  refine canary_within.bind fun canary hcanary => ?_
  cases canary with
  | none => exact .ret trivial
  | some x =>
    refine (KeepsTables.call (e := Op.utcnow) trivial).bind fun now _ => ?_
    refine (KeepsTables.set (b := .stable _ _ _) (hdump x.2 (hcanary x rfl))).bind fun _ _ => ?_
    refine (KeepsTables.call (e := Op.redis (.del [canaryKey])) (Or.inr (Or.inl rfl))).bind fun _ _ => ?_
    exact invalidate_within.bind fun _ _ => .ret trivial

theorem discard_within : KeepsTables m.format T (fun _ => True) m.discard := by
  refine (KeepsTables.call (e := Op.redis (.del [canaryKey])) (Or.inr (Or.inl rfl))).bind fun removed _ => ?_
  refine invalidate_within.bind fun _ _ => ?_
  cases removed <;> exact .ret trivial

theorem counter_within {v : Option Blob} : KeepsTables m.format T (fun _ => True) (RolloutManager.counter v) := by
  unfold RolloutManager.counter
  split
  · exact .ret trivial
  · exact .ret trivial
  · exact .throw

theorem stats_within {version : String} : KeepsTables m.format T (fun _ => True) (RolloutManager.stats version) := by
  refine (KeepsTables.redis fun _ _ => List.not_mem_nil).bind fun r _ => ?_
  split
  · exact counter_within.bind fun _ _ => counter_within.bind fun _ _ => .ret trivial
  · exact .throw

theorem maybeRollBack_within (hdump : ReadsBack m.format T) {version : String} :
    KeepsTables m.format T (fun _ => True) (m.maybeRollBack version) := by
  refine canary_within.bind fun canary _ => ?_
  cases canary with
  | none => exact .ret trivial
  | some x =>
    show KeepsTables _ _ _ (ite _ _ _)
    split
    · exact .ret trivial
    · refine stats_within.bind fun counts _ => ?_
      show KeepsTables _ _ _ (ite _ _ _)
      split
      · exact .ret trivial
      · show KeepsTables _ _ _ (ite _ _ _)
        split
        · exact .throw
        · show KeepsTables _ _ _ (ite _ _ _)
          split
          · exact .ret trivial
          · exact (rollBack_within hdump).bind fun _ _ => .ret trivial

theorem record_within (hdump : ReadsBack m.format T) {variant : Variant} {ok : Bool} :
    KeepsTables m.format T (fun _ => True) (m.record variant ok) := by
  refine (KeepsTables.pipeline fun c hc k hk => ?_).attempt.bind fun r _ => ?_
  · rw [List.mem_append, List.mem_singleton] at hc
    rcases hc with rfl | hc
    · exact aside hk
    · split at hc
      · cases hc
      · obtain rfl := List.mem_singleton.mp hc
        exact aside hk
  · cases r with
    | error _ => exact .ret trivial
    | ok _ =>
      show KeepsTables _ _ _ (ite _ _ _)
      split
      · exact maybeRollBack_within hdump
      · exact .ret trivial

/-- The table that a call hands to a request. -/
def Result.Gives (T : Set RoutingConfig) : Result → Prop
  | .selected r => r.1 ∈ T
  | _ => True

theorem body_within (hdump : ReadsBack m.format T) {c : Call} (hm : c.manager = m)
    (hT : ∀ m' text weight note table, c = .publish m' text weight note → m.format.fromText text = some table → table ∈ T) :
    KeepsTables m.format T (Result.Gives (insert m.fallback T)) c.body := by
  subst hm
  cases c with
  | publish m text weight note => exact (publish_within hdump fun t ht => hT _ _ _ _ t rfl ht).map fun _ _ => trivial
  | setWeight m weight => exact (setWeight_within hdump).map fun _ _ => trivial
  | rollBack m reason => exact (rollBack_within hdump).map fun _ _ => trivial
  | promote m => exact (promote_within hdump).map fun _ _ => trivial
  | discard m => exact discard_within.map fun _ _ => trivial
  | stable m => exact (load_within.bind fun _ _ => .ret (Q := fun _ => True) trivial).map fun _ _ => trivial
  | canary m => exact canary_within.map fun _ _ => trivial
  | select m => exact select_within.map fun _ h => h
  | record m variant ok => exact (record_within hdump).map fun _ _ => trivial

end Calls

/-! ### Every step -/

section Steps
variable {format : TableFormat} {base : RoutingConfig} {T : Set RoutingConfig}

/-- Nothing is asked of a call that is not of this gateway. -/
def tableWatch (format : TableFormat) (base : RoutingConfig) (T : Set RoutingConfig) : Watch system where
  G := Unit
  monitor c :=
    { may := fun _ e => Ours format base T c → e.Stays format T
      next := fun _ e r _ => Ours format base T c → e.Shows format T r }
  first _ := ()
  last c r _ := Ours format base T c → ∀ a, r = .ok a → Result.Gives (insert base T) a

theorem tableWatch_sound (hdump : ReadsBack format T) :
    (tableWatch format base T).Sound := by
  intro c
  by_cases h : Ours format base T c
  · have hmonitor : (tableWatch format base T).monitor c = tableMonitor format T := by
      simp only [tableWatch, tableMonitor, h, true_imp_iff]
      rfl
    have hlast : (tableWatch format base T).last c = fun r _ => ∀ a, r = .ok a → Result.Gives (insert base T) a := by
      simp only [tableWatch, h, true_imp_iff]
      rfl
    obtain ⟨⟨hformat, hfallback⟩, hpublishes⟩ := h
    subst hformat hfallback
    rw [hmonitor, hlast]
    exact body_within hdump rfl hpublishes
  · exact Follows.always (I := fun _ => True) (fun _ _ _ h' => absurd h' h) (fun _ _ _ _ _ _ => trivial)
      (fun _ _ _ h' => absurd h' h) trivial

/-- A command on the tables. -/
theorem redis_within {c : Cmd Blob} {s : State} (h : (Op.redis c).Stays format T) (hs : s.Within format T) :
    State.Within format T { s with store := (Redis.exec 0 c s.store).2 } := by
  have kept : ∀ {k}, k ∉ c.writes → str? 0 (Redis.exec 0 c s.store).2 k = str? 0 s.store k := fun hk => by
    rw [str?, str?, value?_congr (exec_frame hk)]
  refine ⟨fun k hk b hb => ?_, hs.cached⟩
  rcases h with ⟨k', b', rfl, hb'⟩ | rfl | hframe
  · by_cases heq : k = k'
    · subst heq
      rw [exec_set_forever, str?_of_value value?_set] at hb
      cases hb
      exact hb'
    · rw [kept (by simpa [Cmd.writes] using heq)] at hb
      exact hs.stored k hk b hb
  · by_cases heq : k = canaryKey
    · subst heq
      have hgone : str? 0 (Redis.exec 0 (.del [canaryKey]) s.store).2 canaryKey = none := by
        simp [Redis.exec, str?, value?, live?]
      rw [hgone] at hb
      cases hb
    · rw [kept (by simpa [Cmd.writes] using heq)] at hb
      exact hs.stored k hk b hb
  · rw [kept (hframe k hk)] at hb
    exact hs.stored k hk b hb

/-- What `MGET` answers. -/
theorem mget_shows {c : Cmd Blob} {s : State} (hs : s.Within format T) :
    (Op.redis c).Shows format T (.ok (Redis.exec 0 c s.store).1) := by
  cases c with
  | mget ks =>
    rw [exec_mget]
    rintro rfl b hb
    obtain ⟨k, hk, hb⟩ := List.mem_map.mp hb
    exact hs.stored k hk b hb
  | _ => trivial

theorem cache_within {s : State} {r : Nat} {cache : Cached} (hs : s.Within format T) (h : cache.Within T) :
    State.Within format T { s with cache := Function.update s.cache r cache } := by
  refine ⟨hs.stored, fun r' => ?_⟩
  show Cached.Within T (Function.update s.cache r cache r')
  by_cases hr : r' = r
  · subst hr
    rwa [Function.update_self]
  · rw [Function.update_of_ne hr]
    exact hs.cached r'

theorem exec_within {e : Op} {ch : Choice} {s s' : State} {r : Except Exn e.Reply} (h : e.Stays format T)
    (hs : s.Within format T) (hex : exec e ch s = some (r, s')) : s'.Within format T ∧ e.Shows format T r := by
  cases e with
  | redis c =>
    cases ch <;> simp only [exec, Option.some.injEq, Prod.mk.injEq, reduceCtorEq] at hex
    · obtain ⟨rfl, rfl⟩ := hex
      refine ⟨redis_within h hs, ?_⟩
      split
      · cases c <;> trivial
      · exact mget_shows hs
    · obtain ⟨rfl, rfl⟩ := hex
      refine ⟨?_, by cases c <;> trivial⟩
      split
      · exact redis_within h hs
      · exact hs
  | readCache replica =>
    cases ch <;> simp only [exec, Option.some.injEq, Prod.mk.injEq, reduceCtorEq] at hex
    obtain ⟨rfl, rfl⟩ := hex
    exact ⟨hs, hs.cached replica⟩
  | writeCache replica cache =>
    cases ch <;> simp only [exec, Option.some.injEq, Prod.mk.injEq, reduceCtorEq] at hex
    obtain ⟨rfl, rfl⟩ := hex
    exact ⟨cache_within hs h, trivial⟩
  | edit replica state =>
    cases ch <;> simp only [exec, Option.some.injEq, Prod.mk.injEq, reduceCtorEq] at hex
    obtain ⟨rfl, rfl⟩ := hex
    refine ⟨cache_within hs ⟨(hs.cached replica).stable, fun x hx => ?_⟩, trivial⟩
    obtain ⟨y, hy, rfl⟩ := Option.map_eq_some_iff.mp hx
    exact (hs.cached replica).canary y hy
  | random =>
    cases ch <;> simp only [exec, Option.ite_none_right_eq_some, Option.some.injEq, Prod.mk.injEq, reduceCtorEq] at hex
    exact ⟨hex.2.2 ▸ hs, trivial⟩
  | _ =>
    cases ch <;> simp only [exec, Option.some.injEq, Prod.mk.injEq, reduceCtorEq] at hex
    exact ⟨hex.2 ▸ hs, trivial⟩

/-- All calls are of this gateway, tables of `T` are all there is, and these and the start-up table all that was
    handed out. -/
structure TableInv (format : TableFormat) (base : RoutingConfig) (T : Set RoutingConfig) (s : State)
    (tr : List system.Event) (Γ : Nat → Option (Call × Unit)) : Prop where
  within : s.Within format T
  ours : ∀ i c g, Γ i = some (c, g) → Ours format base T c
  given : ∀ t ∈ tr.filterMap table?, t ∈ insert base T

theorem tableRules : Rules (tableWatch format base T) (Publishes format base T)
    (TableInv format base T) where
  start {w Γ i c} _ h _ _ hP := by
    refine ⟨h.within, fun j c' g hj => ?_, h.given⟩
    rcases board_entry hj with ⟨-, heq⟩ | ⟨-, hj⟩
    · cases heq
      exact hP
    · exact h.ours j c' g hj
  op {w Γ i ch c g e r s} _ h hi _ hmay hex _ := by
    have hours := h.ours i c g hi
    obtain ⟨hwithin, hshows⟩ := exec_within (hmay hours) h.within hex
    refine ⟨(), fun _ => hshows, hwithin, fun j c' g' hj => ?_, h.given⟩
    rcases board_entry hj with ⟨-, heq⟩ | ⟨-, hj⟩
    · cases heq
      exact hours
    · exact h.ours j c' g' hj
  ended {s tr Γ i c g r} h hi hlast := by
    refine ⟨h.within, fun j c' g' hj => h.ours j c' g' (clear_entry hj).2, fun t ht => ?_⟩
    obtain ⟨v, hv, htable⟩ := List.mem_filterMap.mp ht
    rcases List.mem_cons.mp hv with rfl | hv
    · simp only [table?] at htable
      split at htable
      · rename_i heq
        cases heq
        cases htable
        exact hlast (h.ours i c g hi) _ rfl
      · cases htable
    · exact h.given t (List.mem_filterMap.mpr ⟨v, hv, htable⟩)
  kill _ h _ _ _ := ⟨h.within, fun j c' g' hj => h.ours j c' g' (clear_entry hj).2, h.given⟩
  env {w Γ b s} _ h hs _ := by
    simp only [system] at hs
    split at hs
    · cases hs
      exact ⟨⟨h.within.stored, h.within.cached⟩, h.ours, h.given⟩
    · cases hs

end Steps

/-- Where the start-up table, the tables that are published and those read back from their dumps agree, so do all
    that are served from. -/
theorem names_mean_one {format : TableFormat} {base : RoutingConfig} {T : Set RoutingConfig}
    (hdump : ReadsBack format T) (hT : ∀ t ∈ insert base T, ∀ t' ∈ insert base T, t.Agrees t') :
    NamesMeanOne format base T := by
  intro w hr t ht t' ht'
  have hempty : TableInv format base T {} [] fun _ => none :=
    ⟨⟨fun _ _ _ h => (by cases h), fun _ => ⟨fun _ h => (by cases h), fun _ h => (by cases h)⟩⟩, fun _ _ _ h => (by cases h),
      fun _ h => (by cases h)⟩
  obtain ⟨Γ, -, h⟩ := tableRules.reaches (tableWatch_sound hdump) hr ⟨fun _ => none, fun _ => rfl, hempty⟩
  exact hT t (h.given t ht) t' (h.given t' ht')

/-! ### A canary that moves a deployment to another model -/

namespace OtherModel

/-- A table of one deployment. -/
def table (model : String) : RoutingConfig where
  routes := AList.singleton "default" [{ name := "primary", provider := "mock", model }]
  nonempty := by simp
  named := by simp [Routes.all]

def small : RoutingConfig := table "mock/small"

def large : RoutingConfig := table "mock/large"

/-- A candidate that leaves the deployment as it is and puts another one behind it. -/
def widened : RoutingConfig where
  routes := AList.singleton "default" [{ name := "primary", provider := "mock", model := "mock/small" },
    { name := "spare", provider := "mock", model := "mock/large" }]
  nonempty := by simp
  named := by simp [Routes.all]

/-- Three tables, their JSON texts and their fingerprints. -/
def format : TableFormat where
  fromText t :=
    if t = dumped small then some small else if t = dumped large then some large
    else if t = dumped widened then some widened else none
  modelDumpJson := dumped
  fingerprint table :=
    if dumped table = dumped small then "4f768ef80b58" else if dumped table = dumped large then "d3c8cdd0fdc8"
    else "f1d372a9e2ad"

def manager (replica : Nat) : RolloutManager where
  replica
  format
  fallback := small

/-- The candidate gets half of the requests; one request draws it, the next one does not. -/
def acts (candidate : RoutingConfig) : List system.Act :=
  [.start 0 (.publish (manager 0) (dumped candidate) 50 none), .op 0 (.text "t0")] ++ StaleReplica.okay 0 4 ++
  [.start 1 (.select (manager 1))] ++ StaleReplica.okay 1 4 ++ [.op 1 (.number (1 / 4))] ++
  [.start 2 (.select (manager 1))] ++ StaleReplica.okay 2 2 ++ [.op 2 (.number (3 / 4))]

theorem acts_ours {candidate : RoutingConfig} {T : Set RoutingConfig}
    (hT : ∀ t, format.fromText (dumped candidate) = some t → t ∈ T) :
    ∀ a ∈ acts candidate, ∀ w, Publishes format small T w a := by
  intro a ha w
  simp only [acts, StaleReplica.okay, List.mem_append, List.mem_cons, List.not_mem_nil, or_false, List.mem_replicate] at ha
  rcases ha with ((((((((rfl | rfl) | ⟨-, rfl⟩) | rfl) | ⟨-, rfl⟩) | rfl) | rfl) | ⟨-, rfl⟩) | rfl)
  · refine ⟨⟨rfl, rfl⟩, fun _ _ _ _ t hc ht => ?_⟩
    cases hc
    exact hT t ht
  all_goals first
    | exact ⟨⟨rfl, rfl⟩, fun _ _ _ _ _ h => by cases h⟩
    | trivial

theorem large_handed_out : ((quiet {}).run (acts large)).map (fun w => (handedOut w).map fun t => t.routes.all) =
    some [small.routes.all, large.routes.all] := by
  decide +kernel

/-- Two requests are served by deployments of one name that are not the same. -/
theorem not_names_mean_one : ¬NamesMeanOne format small Set.univ := by
  intro h
  obtain ⟨w, hw, hhanded⟩ := Option.map_eq_some_iff.mp large_handed_out
  obtain ⟨t, rest, hout, ht, hrest⟩ := List.map_eq_cons_iff.mp hhanded
  obtain ⟨t', rest', hout', ht', -⟩ := List.map_eq_cons_iff.mp hrest
  have hagrees := h w (World.reaches_of_run (acts_ours fun _ _ => Set.mem_univ _) hw) t (by simp [hout]) t'
    (by simp [hout, hout'])
  unfold RoutingConfig.Agrees at hagrees
  rw [ht, ht'] at hagrees
  revert hagrees
  decide

theorem widened_parses : format.fromText (dumped widened) = some widened := by
  have hsmall : dumped widened ≠ dumped small := by decide +kernel
  have hlarge : dumped widened ≠ dumped large := by decide +kernel
  simp [format, hsmall, hlarge]

theorem widened_handed_out : ((quiet {}).run (acts widened)).map (fun w => (handedOut w).map fun t => t.routes.all) =
    some [small.routes.all, widened.routes.all] := by
  decide +kernel

/-- Where the canary is `widened`, all names mean one thing in every run, and there is a run that serves requests
    from both tables. -/
theorem widened_names_mean_one :
    NamesMeanOne format small {widened} ∧
    ∃ w, World.Reaches (Publishes format small {widened}) (quiet {}) w ∧
      (handedOut w).map (fun t => t.routes.all) = [small.routes.all, widened.routes.all] := by
  refine ⟨names_mean_one ?_ ?_, ?_⟩
  · rintro _ rfl t ht
    exact Option.some.inj (ht.symm.trans widened_parses)
  · unfold RoutingConfig.Agrees
    rintro _ (rfl | rfl) _ (rfl | rfl) <;> decide
  · obtain ⟨w, hw, hhanded⟩ := Option.map_eq_some_iff.mp widened_handed_out
    exact ⟨w, World.reaches_of_run (acts_ours fun t ht => Option.some.inj (ht.symm.trans widened_parses)) hw, hhanded⟩

end OtherModel
end Rollout
end NexusGate.Gateway
