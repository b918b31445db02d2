import NexusGate.Async.Lives
import NexusGate.Gateway.Rollout

/-! # Outcomes of a canary

An automatic rollback writes the whole record of the canary that its replica has cached, without looking at
what is stored by then. It leaves other canaries alone in the runs where the version that `_maybe_roll_back`
finds in the cache is the one stored, and no other call changes the stored version from there to the write. -/

namespace NexusGate.Gateway.Rollout
open Async Async.System Redis

/-- What is stored under `CANARY_KEY`. -/
def State.stored (s : State) : Option (Value Blob) := value? 0 s.store canaryKey

/-- The version of the stored canary. -/
def State.storedVersion (s : State) : Option String :=
  match s.stored with
  | some (.str (.canary state _)) => some state.version
  | _ => none

/-- A Redis that holds anything, and nobody at work. -/
def quiet (s : State) : system.World := { state := s }

/-- In every run from `s` whose steps meet `P`, an outcome of canary `v` changes what is stored as the canary
    only while a canary of version `v` is stored. -/
def OutcomesKeepOthers (P : system.World → system.Act → Prop) (s : State) : Prop :=
  ∀ w w' i ch, World.Reaches P (quiet s) w → P w (.op i ch) → w.step (.op i ch) = some w' →
    ∀ m v ok p, w.threads i = some ⟨.record m ⟨canaryName, v⟩ ok, p⟩ →
      w'.state.stored = w.state.stored ∨ w.state.storedVersion = some v

/-! ### What an outcome has read -/

/-- A cache that `_load` returns as it is. -/
def RolloutManager.freshAt (m : RolloutManager) (now : ℚ) (cache : Cached) : Bool :=
  cache.fetchedAt.any fun t => now - t < m.settings.refreshSeconds

/-- How far an outcome has come: it counts and loads, it has compared with the cache that it has loaded first, and
    it has written the canary. -/
inductive Progress
  | counting
  | timed (now : ℚ)
  | compared (cache : Cached)
  | written

/-- Where an operation takes the record of an outcome. -/
def Progress.next (m : RolloutManager) : Progress → (e : Op) → Except Exn e.Reply → Progress
  | .counting, .clock _, .ok now => .timed now
  | .timed now, .readCache _, .ok cache => if m.freshAt now cache then .compared cache else .counting
  | .counting, .writeCache _ cache, _ => .compared cache
  | .compared cache, .redis (.set key _ _ _), _ => if key = canaryKey then .written else .compared cache
  | g, _, _ => g

/-- How far an outcome has come with what it has done, newest first. -/
def progress (m : RolloutManager) : List system.Event → Progress
  | [] => .counting
  | .did _ _ e r :: life => (progress m life).next m e r
  | _ :: life => progress m life

/-- The canary of version `v` in a cache, if it takes requests. -/
def Cached.finds (cache : Cached) (v : String) : Option CanaryState :=
  (cache.canary.map Prod.fst).filter fun state => state.version = v && state.active

/-- The cached canary that an outcome of version `v` has found and not yet written back. -/
def Progress.found (v : String) : Progress → Option CanaryState
  | .compared cache => cache.finds v
  | _ => none

/-- Call `i` carries out `e`, which leaves state `s`. Where an outcome finds its canary in the cache, the stored one
    is of the cached version; and no other call changes the stored version before the outcome has written. -/
structure Settles (w : system.World) (i : Nat) (c : Call) (e : Op) (r : Except Exn e.Reply) (s : State) : Prop where
  compared : ∀ m v ok state, c = .record m ⟨canaryName, v⟩ ok → (progress m (life i w.trace)).found v = none →
    ((progress m (life i w.trace)).next m e r).found v = some state → s.storedVersion = some state.version
  kept : ∀ j m v ok p state, j ≠ i → w.threads j = some ⟨.record m ⟨canaryName, v⟩ ok, p⟩ →
    (progress m (life j w.trace)).found v = some state → s.storedVersion = w.state.storedVersion

/-- Every operation settles what the outcomes have read. -/
def Undisturbed (w : system.World) : system.Act → Prop
  | .op i ch => ∀ c e k r s, w.threads i = some ⟨c, .op e k⟩ → exec e ch w.state = some (r, s) → Settles w i c e r s
  | _ => True

theorem finds_version {cache : Cached} {v : String} {state : CanaryState} (h : cache.finds v = some state) :
    state.version = v := by
  obtain ⟨-, h⟩ := Option.filter_eq_some_iff.mp h
  simp only [Bool.and_eq_true, decide_eq_true_eq] at h
  exact h.1

theorem found_version {g : Progress} {v : String} {state : CanaryState} (h : g.found v = some state) :
    state.version = v := by
  cases g with
  | compared cache => exact finds_version h
  | _ => cases h

/-! ### What a call may do -/

/-- The operation writes the key of the canary. -/
def Op.writesCanary : Op → Bool
  | .redis c => canaryKey ∈ c.writes
  | _ => false

/-- An outcome changes no canary but by one write, after it has found its own in the cache. -/
def recordMonitor (m : RolloutManager) (v : String) : Monitor Op Op.Reply Exn Progress where
  may g e := e.writesCanary = false ∨ (g.found v).isSome = true ∧ ∃ b, e = .redis (.set canaryKey b none false)
  next g e r g' := g' = g.next m e r

/-- Nothing is asked of the other calls. -/
def anyMonitor : Monitor Op Op.Reply Exn Progress where
  may _ _ := True
  next _ _ _ g := g = .counting

/-- Every record of an outcome is watched for the copy it compares. -/
def watch : Watch system where
  G := Progress
  monitor
    | .record m variant _ => recordMonitor m variant.version
    | _ => anyMonitor
  first _ := .counting
  last _ _ _ := True

/-- What is not the write leaves an outcome that has compared, or written, where it is. -/
theorem next_compared {m : RolloutManager} {cache : Cached} {e : Op} {r : Except Exn e.Reply} (he : e.writesCanary = false) :
    (Progress.compared cache).next m e r = .compared cache := by
  cases e with
  | redis c =>
    cases c with
    | set key b ttl nx =>
      have hkey : key ≠ canaryKey := fun h => by simp [Op.writesCanary, Cmd.writes, h] at he
      exact if_neg hkey
    | _ => rfl
  | _ => rfl

section Follow
variable {m : RolloutManager} {v : String} {cache : Cached}

/-- What does not write the canary. -/
abbrev Idles {α : Type} (p : Program α) : Prop := Hands (fun e => e.writesCanary = false) p

theorem idles_call {e : Op} (he : e.writesCanary = false) : Idles (.call e) := Hands.call he

theorem load_idles : Idles m.load := by
  refine (idles_call rfl).bind fun now => (idles_call rfl).bind fun cache => ?_
  show Hands _ (ite _ _ _)
  split
  · trivial
  · have read : Op.writesCanary (.redis (.mget [stableKey, canaryKey])) = false := by simp [Op.writesCanary, Cmd.writes]
    exact (idles_call read).attempt.bind fun _ => (idles_call rfl).bind fun _ => trivial

theorem canary_idles : Idles m.canary := load_idles.bind fun _ => trivial

theorem invalidate_idles : Idles m.invalidate := (idles_call rfl).bind fun _ => idles_call rfl

theorem counter_idles {b : Option Blob} : Idles (RolloutManager.counter b) := by
  unfold RolloutManager.counter
  split <;> trivial

theorem stats_idles {version : String} : Idles (RolloutManager.stats version) := by
  refine (idles_call (by simp [Op.writesCanary, Cmd.writes])).bind fun reply => ?_
  split
  · exact counter_idles.bind fun _ => counter_idles.bind fun _ => trivial
  · trivial

theorem compared_follows {α : Type} {p : Program α} (hp : Idles p) :
    Follows (recordMonitor m v) (fun _ g => g = .compared cache) p (.compared cache) :=
  hp.follows (M := recordMonitor m v) (I := fun g => g = .compared cache) (fun _ _ _ he => .inl he)
    (fun _ _ _ _ hg he hn => by rw [hn, hg, next_compared he]) (fun _ _ h => h) rfl

theorem written_follows {α : Type} {p : Program α} (hp : Idles p) :
    Follows (recordMonitor m v) (fun _ _ => True) p .written :=
  hp.follows (M := recordMonitor m v) (I := fun _ => True) (fun _ _ _ he => .inl he) (fun _ _ _ _ _ _ _ => trivial)
    (fun _ _ _ => trivial) trivial

theorem pipeline_counts {cs : List (Cmd Blob)} (hcs : ∀ c ∈ cs, canaryKey ∉ c.writes) :
    Follows (recordMonitor m v) (fun _ g => g = .counting) (pipeline cs) .counting := by
  have hands : ∀ cs : List (Cmd Blob), (∀ c ∈ cs, canaryKey ∉ c.writes) →
      Hands (fun e => ∃ c, e = .redis c ∧ canaryKey ∉ c.writes) (pipeline cs) := by
    intro cs
    induction cs with
    | nil => exact fun _ => trivial
    | cons c cs ih =>
      refine fun h => (Hands.call ⟨c, rfl, h c List.mem_cons_self⟩).attempt.bind fun reply => ?_
      refine (ih fun c' hc' => h c' (List.mem_cons_of_mem _ hc')).bind fun _ => ?_
      cases reply <;> trivial
  refine (hands cs hcs).follows (M := recordMonitor m v) (I := fun g => g = .counting) ?_ ?_ (fun _ _ h => h) rfl
  · rintro g e - ⟨c, rfl, hc⟩
    exact .inl (decide_eq_false hc)
  · rintro g e r g' rfl ⟨c, rfl, hc⟩ hn
    exact hn

/-- What a call loads first is what it compares with. -/
theorem load_compares :
    Follows (recordMonitor m v) (fun r g => ∀ cache, r = .ok cache → g = .compared cache) m.load .counting := by
  refine Follows.bind_iff.mpr (Follows.call_iff.mpr ⟨.inl rfl, ?_⟩)
  rintro (x | now) g rfl
  · nofun
  refine Follows.bind_iff.mpr (Follows.call_iff.mpr ⟨.inl rfl, ?_⟩)
  rintro (x | cache) g rfl
  · nofun
  show Follows _ _ (ite (m.freshAt now cache = true) _ _) (ite (m.freshAt now cache = true) _ _)
  split
  · rintro cache' ⟨⟩
    rfl
  · have read : Op.writesCanary (.redis (.mget [stableKey, canaryKey])) = false := by simp [Op.writesCanary, Cmd.writes]
    refine Follows.bind_iff.mpr (Follows.attempt_iff.mpr (Follows.call_iff.mpr ⟨.inl read, ?_⟩))
    rintro r g rfl
    refine Follows.bind_iff.mpr (Follows.call_iff.mpr ⟨.inl rfl, ?_⟩)
    rintro (x | _) g rfl
    · nofun
    · rintro cache' ⟨⟩
      rfl

theorem canary_compares : Follows (recordMonitor m v)
    (fun r g => ∀ canary, r = .ok (some canary) → ∃ cache, g = .compared cache ∧ cache.canary = some canary) m.canary
    .counting := by
  refine Follows.bind_iff.mpr (load_compares.mono fun r g h => ?_)
  cases r with
  | error _ => nofun
  | ok cache => exact fun canary hc => ⟨cache, h cache rfl, Except.ok.inj hc⟩

/-- The record is written once, by an outcome that has found its canary. -/
theorem rollBack_follows {reason : String} (hfound : (cache.finds v).isSome = true) :
    Follows (recordMonitor m v) (fun _ _ => True) (m.rollBack reason) (.compared cache) := by
  refine (compared_follows canary_idles).bind (fun canary g hg => ?_) fun _ _ _ => trivial
  subst hg
  match canary with
  | none => trivial
  | some (state, config) =>
    refine (compared_follows (idles_call rfl)).bind (fun now g hg => ?_) fun _ _ _ => trivial
    subst hg
    refine (compared_follows (idles_call rfl)).bind (fun _ g hg => ?_) fun _ _ _ => trivial
    subst hg
    refine Follows.bind_iff.mpr (Follows.bind_iff.mpr (Follows.call_iff.mpr ⟨.inr ⟨hfound, _, rfl⟩, ?_⟩))
    rintro r g rfl
    cases r with
    | error _ => trivial
    | ok _ => exact (written_follows invalidate_idles).mono fun r _ _ => by cases r <;> trivial

theorem maybeRollBack_follows : Follows (recordMonitor m v) (fun _ _ => True) (m.maybeRollBack v) .counting := by
  refine Follows.bind_iff.mpr (canary_compares.mono fun r g h => ?_)
  match r with
  | .error _ => trivial
  | .ok none => trivial
  | .ok (some (state, config)) =>
    obtain ⟨cache, rfl, hcanary⟩ := h _ rfl
    show Follows (recordMonitor m v) _ (ite _ _ _) _
    split
    · trivial
    · rename_i hown
      -- Past the test, the canary in the cache is the outcome's own and takes requests.
      have hfound : cache.finds v = some state := by
        rw [not_or, not_not, Bool.not_eq_false] at hown
        simp [Cached.finds, hcanary, hown.1, hown.2]
      refine (compared_follows stats_idles).bind (fun counts g hg => ?_) fun _ _ _ => trivial
      subst hg
      obtain ⟨requests, errors⟩ := counts
      show Follows (recordMonitor m v) _ (ite _ _ _) _
      split
      · trivial
      · show Follows (recordMonitor m v) _ (ite _ _ _) _
        split
        · trivial
        · show Follows (recordMonitor m v) _ (ite _ _ _) _
          split
          · trivial
          · exact (rollBack_follows (by rw [hfound]; rfl)).bind (fun _ _ _ => trivial) fun _ _ _ => trivial

theorem record_follows {variant : Variant} {ok : Bool} :
    Follows (recordMonitor m variant.version) (fun _ _ => True) (m.record variant ok) .counting := by
  have hkeys : canaryKey ≠ statsKey := by decide
  refine (Follows.attempt_iff.mpr (pipeline_counts fun c hc => ?_)).bind (P := fun _ g => g = .counting)
    (fun r g hg => ?_) fun _ _ _ => trivial
  · rw [List.mem_append, List.mem_singleton] at hc
    rcases hc with rfl | hc
    · simpa [Cmd.writes] using hkeys
    · split at hc
      · cases hc
      · obtain rfl := List.mem_singleton.mp hc
        simpa [Cmd.writes] using hkeys
  subst hg
  cases r with
  | error _ => trivial
  | ok _ =>
    show Follows (recordMonitor m variant.version) _ (ite _ _ _) _
    split
    · exact maybeRollBack_follows
    · trivial

theorem watch_sound : watch.Sound := by
  intro c
  cases c with
  | record m variant ok => exact (record_follows.mono fun _ _ _ => trivial).map
  | _ =>
    exact Follows.always (M := anyMonitor) (I := fun _ => True) (fun _ _ _ => trivial) (fun _ _ _ _ _ _ => trivial)
      (fun _ _ _ => trivial) trivial

end Follow

/-! ### Every undisturbed step -/

section Steps
variable {s s' : State} {ch : Choice}

theorem exec_stored {e : Op} {r : Except Exn e.Reply} (he : e.writesCanary = false)
    (h : exec e ch s = some (r, s')) : s'.stored = s.stored := by
  cases e with
  | redis c =>
    have hw : canaryKey ∉ c.writes := of_decide_eq_false he
    cases ch <;> simp only [exec, Option.some.injEq, Prod.mk.injEq, reduceCtorEq] at h
    · obtain ⟨-, rfl⟩ := h
      exact value?_congr (exec_frame hw)
    · obtain ⟨-, rfl⟩ := h
      split
      · exact value?_congr (exec_frame hw)
      · rfl
  | random =>
    cases ch <;> simp only [exec, Option.ite_none_right_eq_some, Option.some.injEq, Prod.mk.injEq, reduceCtorEq] at h
    exact h.2.2 ▸ rfl
  | _ =>
    cases ch <;> simp only [exec, Option.some.injEq, Prod.mk.injEq, reduceCtorEq] at h
    exact h.2 ▸ rfl

theorem storedVersion_congr (h : s'.stored = s.stored) : s'.storedVersion = s.storedVersion := by
  rw [State.storedVersion, State.storedVersion, h]

/-- The board shows how far each outcome has come; from where one has found its canary to where it has written,
    its version is stored. -/
structure Owned (s : State) (tr : List system.Event) (i : Nat) (m : RolloutManager) (v : String) (g : Progress) : Prop where
  reached : g = progress m (life i tr)
  stored : (g.found v).isSome = true → s.storedVersion = some v

/-- What holds of every outcome that is being recorded. -/
def Outcomes (s : State) (tr : List system.Event) (Γ : Nat → Option (Call × Progress)) : Prop :=
  ∀ i m v ok g, Γ i = some (.record m ⟨canaryName, v⟩ ok, g) → Owned s tr i m v g

/-- An event of call `i` that changes no stored version leaves what is known of the others. -/
theorem Owned.other {tr : List system.Event} {x : system.Event} {i j : Nat} {m : RolloutManager} {v : String} {g : Progress}
    (h : Owned s tr j m v g) (hx : x.thread = i) (hj : j ≠ i)
    (hs : (g.found v).isSome = true → s'.storedVersion = s.storedVersion) : Owned s' (x :: tr) j m v g := by
  refine ⟨h.reached.trans ?_, fun hfound => (hs hfound).trans (h.stored hfound)⟩
  rw [life_other (hx ▸ hj.symm)]

theorem step_state {w w' : system.World} {i : Nat} (h : w.step (.op i ch) = some w') :
    ∃ c e k r, w.threads i = some ⟨c, .op e k⟩ ∧ exec e ch w.state = some (r, w'.state) := by
  rcases World.step_cases h with ⟨_, _, ha, _⟩ | ⟨i', ch', c, e, k, r, s, ha, ht, hex, rfl⟩ |
    ⟨_, _, _, ha, _⟩ | ⟨_, _, ha, _⟩
  · cases ha
  · cases ha
    refine ⟨c, e, k, r, ht, hex.trans ?_⟩
    cases k r <;> rfl
  · cases ha
  · cases ha

/-- Call `i` is gone. -/
theorem Outcomes.clear {tr : List system.Event} {Γ : Nat → Option (Call × Progress)} {x : system.Event} {i : Nat}
    (h : Outcomes s tr Γ) (hx : x.thread = i) : Outcomes s (x :: tr) (Function.update Γ i none) := by
  intro j m v ok g hj
  obtain ⟨hji, hj⟩ := clear_entry hj
  exact (h j m v ok g hj).other hx hji fun _ => rfl

theorem rules : Rules watch Undisturbed Outcomes where
  start {w Γ i c} _ h _ _ _ := by
    intro j m v ok g hj
    rcases board_entry hj with ⟨rfl, hx⟩ | ⟨hji, hj⟩
    · cases hx
      exact ⟨(congrArg (progress m) life_start).symm, nofun⟩
    · exact (h j m v ok g hj).other rfl hji fun _ => rfl
  op {w Γ i ch c g e r s} hshows h hi hth hmay hex hP := by
    obtain ⟨k, hk⟩ := hth
    have hsettles := hP c e k r s hk hex
    have hother : ∀ j m v ok g'', j ≠ i → Γ j = some (.record m ⟨canaryName, v⟩ ok, g'') →
        Owned s (.did i c e r :: w.trace) j m v g'' := fun j m v ok g'' hji hj => by
      have hold := h j m v ok g'' hj
      refine hold.other rfl hji fun hfound => ?_
      obtain ⟨p, hp⟩ := hshows.thread hj
      obtain ⟨state, hstate⟩ := Option.isSome_iff_exists.mp hfound
      exact hsettles.kept j m v ok p state hji hp (hold.reached ▸ hstate)
    by_cases hc : ∃ m variant ok, c = .record m variant ok
    · obtain ⟨m, variant, ok, rfl⟩ := hc
      refine ⟨g.next m e r, rfl, fun j m' v ok' g' hj => ?_⟩
      rcases board_entry hj with ⟨rfl, hx⟩ | ⟨hji, hj⟩
      · cases hx
        have hold := h j m v ok g hi
        refine ⟨(congrArg (fun g => g.next m e r) hold.reached).trans (congrArg (progress m) life_did).symm, fun hfound => ?_⟩
        obtain ⟨state, hstate⟩ := Option.isSome_iff_exists.mp hfound
        cases hbefore : g.found v with
        | none =>
          -- It finds its canary at this step.
          rw [hold.reached] at hbefore hstate
          rw [hsettles.compared m v ok state rfl hbefore hstate, found_version hstate]
        | some before =>
          rcases hmay with hidle | ⟨-, b, rfl⟩
          · exact (storedVersion_congr (exec_stored hidle hex)).trans (hold.stored (by rw [hbefore]; rfl))
          · cases g with
            | compared cache => cases hstate
            | _ => cases hbefore
      · exact hother j m' v ok' g' hji hj
    · refine ⟨.counting, ?_, fun j m v ok g' hj => ?_⟩
      · cases c with
        | record m variant ok => exact absurd ⟨m, variant, ok, rfl⟩ hc
        | _ => rfl
      · rcases board_entry hj with ⟨rfl, hx⟩ | ⟨hji, hj⟩
        · cases hx
          exact absurd ⟨m, _, ok, rfl⟩ hc
        · exact hother j m v ok g' hji hj
  ended h _ _ := h.clear rfl
  kill _ h _ _ _ := h.clear rfl
  env {w Γ b s} _ h hs _ := by
    have : s.stored = w.state.stored := by
      simp only [system] at hs
      split at hs
      · cases hs
        rfl
      · cases hs
    exact fun i m v ok g hi => ⟨(h i m v ok g hi).reached,
      fun hfound => (storedVersion_congr this).trans ((h i m v ok g hi).stored hfound)⟩

/-- An undisturbed outcome never changes another canary, and none where none is stored. -/
theorem outcomes_keep_others (s : State) : OutcomesKeepOthers Undisturbed s := by
  intro w w' i ch hr _ hs m v ok p hp
  obtain ⟨Γ, hΓ, h⟩ := rules.reaches watch_sound hr ⟨fun _ => none, fun _ => rfl, fun _ _ _ _ _ h => nomatch h⟩
  obtain ⟨g, hg, hf⟩ := hΓ.of_thread hp
  obtain ⟨c, e, k, r, ht, hex⟩ := step_state hs
  rw [hp] at ht
  cases ht
  rcases (Follows.op_iff.mp hf).1 with hidle | ⟨hfound, -⟩
  · exact .inl (exec_stored hidle hex)
  · exact .inr ((h i m v ok g hg).stored hfound)

end Steps

/-! ### A replica that has not seen the new canary -/

/-- The JSON of a deployment that leaves all defaults. -/
def deploymentText (d : Deployment) : String :=
  "\x7b\"name\":\"" ++ d.name ++ "\",\"provider\":\"" ++ d.provider ++ "\",\"model\":\"" ++ d.model ++
  "\",\"api_base\":null,\"timeout_seconds\":null,\"max_retries\":0,\"pricing\":null,\"self_hosted\":false," ++
  "\"options\":\x7b\x7d\x7d"

/-- `model_dump_json` of a table whose only route is `default`, with deployments that leave all defaults. -/
def dumped (table : RoutingConfig) : String :=
  "\x7b\"routes\":\x7b\"default\":[" ++ ",".intercalate (table.routes.all.map deploymentText) ++ "]\x7d\x7d"

namespace StaleReplica

/-- The JSON of the table that serves `default` by one model. -/
def text (name : String) : String :=
  "\x7b\"routes\":\x7b\"default\":[\x7b\"name\":\"" ++ name ++ "\",\"provider\":\"mock\",\"model\":\"mock/" ++ name ++
  "\",\"api_base\":null,\"timeout_seconds\":null,\"max_retries\":0,\"pricing\":null,\"self_hosted\":false," ++
  "\"options\":\x7b\x7d\x7d]\x7d\x7d"

def table (name : String) : RoutingConfig where
  routes := AList.singleton "default" [{ name, provider := "mock", model := "mock/" ++ name }]
  nonempty := by simp
  named := by simp [Routes.all]

def versionA : String := "a83f2d5ab0d7"

def versionB : String := "45aa2bbc4f8b"

/-- The table is that of `a`. -/
def isA (c : RoutingConfig) : Bool := c.routes.all.any fun d => d.name == "a"

/-- Two tables, their JSON texts and their fingerprints. -/
def format : TableFormat where
  fromText t := if t = text "a" then some (table "a") else if t = text "b" then some (table "b") else none
  modelDumpJson c := if isA c then text "a" else text "b"
  fingerprint c := if isA c then versionA else versionB

def manager (replica : Nat) : RolloutManager where
  replica
  format
  fallback := table "a"
  settings := { minRequests := 1, maxErrorRate := 1 / 100 }

def okay (i n : Nat) : List system.Act := List.replicate n (.op i .ok)

/-- A canary is published on one replica and seen by the other, and replaced on the first; the second then
    records a failure of the first canary. -/
def acts : List system.Act :=
  [.start 0 (.publish (manager 0) (text "a") 100 none), .op 0 (.text "t0")] ++ okay 0 4 ++
  [.start 1 (.select (manager 1))] ++ okay 1 4 ++ [.op 1 (.number 0)] ++
  [.start 2 (.publish (manager 0) (text "b") 100 none), .op 2 (.text "t1")] ++ okay 2 4 ++
  [.start 3 (.record (manager 1) ⟨canaryName, versionA⟩ false)] ++ okay 3 7 ++ [.op 3 (.text "t2"), .op 3 .ok]

/-- The thread records an outcome of `a`. -/
def isOutcome (t : system.Thread) : Bool :=
  match t.call with
  | .record _ v _ => v == ⟨canaryName, versionA⟩
  | _ => false

theorem waits_to_write : ((quiet {}).run acts).any (fun w => (w.threads 3).any isOutcome) = true := by decide +kernel

theorem before_write : ((quiet {}).run acts).bind (fun w => w.state.storedVersion) = some versionB := by
  decide +kernel

theorem after_write : (((quiet {}).run acts).bind fun w => w.step (.op 3 .ok)).bind (fun w => w.state.storedVersion) =
    some versionA := by
  decide +kernel

/-- The second replica overwrites the new canary with the old one. -/
theorem not_outcomes_keep_others : ¬OutcomesKeepOthers World.anyStep {} := by
  intro h
  obtain ⟨w, hw, hv⟩ := Option.bind_eq_some_iff.mp before_write
  obtain ⟨w', hw', hv'⟩ := Option.bind_eq_some_iff.mp after_write
  have hcall := waits_to_write
  rw [hw] at hcall hw'
  obtain ⟨⟨c, p⟩, ht, hc⟩ := (Option.any_eq_true isOutcome (w.threads 3)).mp hcall
  cases c with
  | record m variant ok =>
    obtain rfl : variant = ⟨canaryName, versionA⟩ := beq_iff_eq.mp hc
    rcases h w w' 3 .ok (World.reaches_of_run (fun _ _ _ => trivial) hw) trivial hw' m versionA ok p ht with hsame | hversion
    · rw [storedVersion_congr hsame, hv] at hv'
      exact absurd hv' (by decide)
    · rw [hv] at hversion
      exact absurd hversion (by decide)
  | _ => cases hc

/-! The same failure while the first canary is still the one that is stored. -/

/-- The acts up to where the first canary is about to be withdrawn. -/
def ownActs : List system.Act :=
  [.start 0 (.publish (manager 0) (text "a") 100 none), .op 0 (.text "t0")] ++ okay 0 4 ++
  [.start 1 (.select (manager 1))] ++ okay 1 4 ++ [.op 1 (.number 0),
    .start 3 (.record (manager 1) ⟨canaryName, versionA⟩ false)] ++ okay 3 7 ++ [.op 3 (.text "t2"), .op 3 .ok]

/-- The thread records an outcome. -/
def records (t : system.Thread) : Bool :=
  match t.call with
  | .record _ _ _ => true
  | _ => false

/-- While outcomes run, they are outcomes of the first canary, and it is the one stored. -/
def keeping (w : system.World) (a : system.Act) : Bool :=
  (List.range 4).all fun j => (w.threads j).all fun t => !records t ||
    (isOutcome t && w.state.storedVersion == some versionA &&
      (w.step a).all fun w' => w'.state.storedVersion == some versionA)

theorem undisturbed_of_keeping {w : system.World} {a : system.Act} (hbound : ∀ j, 4 ≤ j → w.threads j = none)
    (h : keeping w a = true) (hs : (w.step a).isSome = true) : Undisturbed w a := by
  have outcome {j : Nat} {m : RolloutManager} {v : String} {ok : Bool} {p : system.Program}
      (hj : w.threads j = some ⟨.record m ⟨canaryName, v⟩ ok, p⟩) : v = versionA ∧ w.state.storedVersion = some versionA ∧
        (w.step a).all (fun w' => w'.state.storedVersion == some versionA) = true := by
    have hj4 : j < 4 := by
      by_contra hge
      rw [hbound j (Nat.le_of_not_lt hge)] at hj
      cases hj
    have hj' := List.all_eq_true.mp h j (List.mem_range.mpr hj4)
    rw [hj, Option.all_some] at hj'
    simp only [records, isOutcome, Bool.not_true, Bool.false_or, Bool.and_eq_true, beq_iff_eq, Variant.mk.injEq, true_and] at hj'
    exact ⟨hj'.1.1, hj'.1.2, hj'.2⟩
  cases a with
  | op i ch =>
    intro c e k r s ht hex
    obtain ⟨w', hw'⟩ := Option.isSome_iff_exists.mp hs
    obtain ⟨c', e', k', r', ht', hex'⟩ := step_state hw'
    rw [ht] at ht'
    cases ht'
    rw [hex] at hex'
    cases hex'
    refine ⟨fun m v ok state hc _ hfound => ?_, fun j m v ok p state _ hj _ => ?_⟩
    · subst hc
      obtain ⟨rfl, -, hafter⟩ := outcome ht
      rw [hw', Option.all_some, beq_iff_eq] at hafter
      rw [hafter, found_version hfound]
    · obtain ⟨-, hbefore, hafter⟩ := outcome hj
      rw [hw', Option.all_some, beq_iff_eq] at hafter
      rw [hafter, hbefore]
  | _ => trivial

/-- The step can be taken and is one of those `keeping` allows. -/
def kept (w : system.World) (a : system.Act) : Bool := keeping w a && (w.step a).isSome

/-- The stored canary is rolled back. -/
def withdrawn (s : State) : Bool :=
  match s.stored with
  | some (.str (.canary state _)) => state.rolledBackAt.isSome
  | _ => false

theorem own_run : ((quiet {}).runIf kept ownActs).any (fun w => (w.threads 3).any isOutcome && kept w (.op 3 .ok) &&
    !withdrawn w.state && (w.step (.op 3 .ok)).any fun w' => withdrawn w'.state) = true := by
  decide +kernel

/-- An undisturbed outcome withdraws its own canary, which is the one stored. -/
theorem withdraws_own : ∃ w w', World.Reaches Undisturbed (quiet {}) w ∧ Undisturbed w (.op 3 .ok) ∧
    w.step (.op 3 .ok) = some w' ∧ withdrawn w.state = false ∧ withdrawn w'.state = true ∧
    w.state.storedVersion = some versionA := by
  have hP : ∀ (w : system.World) (a : system.Act), (∀ j, 4 ≤ j → w.threads j = none) → kept w a = true → Undisturbed w a :=
    fun w a hbound h => undisturbed_of_keeping hbound (Bool.and_eq_true _ _ ▸ h).1 (Bool.and_eq_true _ _ ▸ h).2
  obtain ⟨w, hw, h⟩ := (Option.any_eq_true _ _).mp own_run
  simp only [Bool.and_eq_true, Bool.not_eq_true'] at h
  obtain ⟨⟨⟨hcall, hkept⟩, hbefore⟩, hwrites⟩ := h
  obtain ⟨w', hs, hafter⟩ := (Option.any_eq_true _ _).mp hwrites
  obtain ⟨hreach, hbound⟩ := World.reaches_of_runIf_below (fun w a _ => hP w a) (by decide) (fun _ _ => rfl) hw
  obtain ⟨⟨c, p⟩, ht, hc⟩ := (Option.any_eq_true isOutcome (w.threads 3)).mp hcall
  have hundisturbed := hP w _ hbound hkept
  have hne : w'.state.stored ≠ w.state.stored := fun heq => by
    have hsame : withdrawn w'.state = withdrawn w.state := by simp only [withdrawn, heq]
    rw [hsame, hbefore] at hafter
    cases hafter
  refine ⟨w, w', hreach, hundisturbed, hs, hbefore, hafter, ?_⟩
  cases c with
  | record m variant ok =>
    obtain rfl : variant = ⟨canaryName, versionA⟩ := beq_iff_eq.mp hc
    exact (outcomes_keep_others {} w w' 3 .ok hreach hundisturbed hs m versionA ok p ht).resolve_left hne
  | _ => cases hc

end StaleReplica
end NexusGate.Gateway.Rollout
