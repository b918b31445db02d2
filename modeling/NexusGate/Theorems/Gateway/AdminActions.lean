import NexusGate.Theorems.Gateway.RolloutMachine

/-! # What admin actions act on

`set_weight` and `promote` work on the copy of the canary that their replica has read, and write it back command
by command. They act on the stored canary in the runs where that copy is the stored canary when they take it, and
no other call stores or removes a canary until they are through. -/

namespace NexusGate.Gateway.Rollout
open Async Async.System Redis

/-- A canary apart from its weight and rollback mark. -/
def CanaryState.bare (state : CanaryState) : CanaryState := { state with weight := 0, rolledBackAt := none }

/-- What is stored as the canary, as it is written. -/
def State.storedCanary (s : State) : Option (CanaryState × String) :=
  match s.stored with
  | some (.str (.canary state text)) => some (state, text)
  | _ => none

/-- The stored canary with its table, apart from weight and mark. -/
def State.candidate (format : TableFormat) (s : State) : Option (CanaryState × RoutingConfig) :=
  s.storedCanary.bind fun c => (format.fromText c.2).map fun table => (c.1.bare, table)

/-- The candidate in a copy, without its counters. -/
def Cached.candidate (cache : Cached) : Option (CanaryState × RoutingConfig) := cache.canary.map fun c => (c.1.bare, c.2)

/-- The version and the text of a table that `promote` stores. -/
def Call.madeStable (c : Call) (e : Op) : Option (String × String) :=
  match c, e with
  | .promote _, .redis (.set _ (.stable version text _) _ _) => some (version, text)
  | _, _ => none

/-- What call `i` has made stable, if it has done so. -/
def promoted (i : Nat) : List system.Event → Option (String × String)
  | [] => none
  | .start j _ :: tr => if j = i then none else promoted i tr
  | .did j c e _ :: tr => if j = i then (c.madeStable e).or (promoted i tr) else promoted i tr
  | _ :: tr => promoted i tr

/-- Call `c` is a `set_weight` or a `promote`. -/
def Call.rewrites : Call → Bool
  | .setWeight _ _ | .promote _ => true
  | _ => false

/-- What call `i` writes next is about the canary that is stored. -/
structure ActsOnStored (format : TableFormat) (w : system.World) (i : Nat) (ch : Choice) : Prop where
  /-- `set_weight` changes the weight and the mark, and keeps the table. -/
  reweighs : ∀ m weight b k, w.threads i = some ⟨.setWeight m weight, .op (.redis (.set canaryKey b none false)) k⟩ →
    ∃ state text state' text' table, w.state.storedCanary = some (state, text) ∧ b = .canary state' text' ∧
      state'.bare = state.bare ∧ state'.weight = weight ∧
      format.fromText text = some table ∧ format.fromText text' = some table
  /-- `promote` makes the stored table stable, under its version. -/
  promotes : ∀ m b k, w.threads i = some ⟨.promote m, .op (.redis (.set stableKey b none false)) k⟩ →
    ∃ state text table promotedAt, w.state.storedCanary = some (state, text) ∧ format.fromText text = some table ∧
      b = .stable state.version (format.modelDumpJson table) promotedAt
  /-- `promote` removes no canary but the one that it has made stable. -/
  removes : ∀ m k, w.threads i = some ⟨.promote m, .op (.redis (.del [canaryKey])) k⟩ →
    ∀ state text, w.state.storedCanary = some (state, text) →
      ∃ table, format.fromText text = some table ∧ promoted i w.trace = some (state.version, format.modelDumpJson table)
  /-- No canary that was published is lost. -/
  keeps : ∀ w' c p, w.threads i = some ⟨c, p⟩ → c.rewrites = true → w.step (.op i ch) = some w' →
    ∀ version, w.state.storedVersion = some version →
      w'.state.storedVersion = some version ∨ ∃ text, promoted i w.trace = some (version, text)

/-- In every run from `s` whose steps meet `P`, admin actions act on the canary that is stored. -/
def AdminsActOnStored (format : TableFormat) (P : system.World → system.Act → Prop) (s : State) : Prop :=
  ∀ w w' i ch, World.Reaches P (quiet s) w → P w (.op i ch) → w.step (.op i ch) = some w' → ActsOnStored format w i ch

/-- Call `c` is about to take its copy of the canary that its replica has cached. -/
def copies (c : Call) : Op → Bool
  | .edit _ _ | .utcnow => c.rewrites
  | _ => false

/-- Call `c` is about to write its copy, or to remove the canary. -/
def commits (c : Call) : Op → Bool
  | .redis c' => c.rewrites && (canaryKey ∈ c'.writes || stableKey ∈ c'.writes)
  | _ => false

/-- All managers read tables alike. Where a call takes its copy, that is the stored canary, and it takes the one that it
    has read from the cache; until it is through with its writes no other call changes which canary is stored. -/
def Current (format : TableFormat) (w : system.World) : system.Act → Prop
  | .start _ c => c.manager.format = format
  | .op i ch =>
    (∀ c e k, w.threads i = some ⟨c, .op e k⟩ → copies c e = true →
      w.state.candidate format = (w.state.cache c.manager.replica).candidate) ∧
    ∀ j c e k, j ≠ i → w.threads j = some ⟨c, .op e k⟩ →
      ∀ c' e' k' r s, w.threads i = some ⟨c', .op e' k'⟩ → exec e' ch w.state = some (r, s) →
        (copies c e = true → (s.cache c.manager.replica).candidate = (w.state.cache c.manager.replica).candidate) ∧
        (commits c e = true → s.candidate format = w.state.candidate format)
  | _ => True

/-! ### What a call may do -/

/-- How far a call has come: what it has read, and what it is about to write. -/
inductive AdminPhase
  | idle
  | timed (now : ℚ)
  | stale
  | loaded (cache : Cached)
  | writing (state : CanaryState) (config : RoutingConfig)
  | removing (state : CanaryState) (config : RoutingConfig)
  | done

/-- The copy that a call works on. -/
def taken (c : Call) (state : CanaryState) : CanaryState :=
  match c with
  | .setWeight _ weight => { state with weight, rolledBackAt := if weight = 0 then state.rolledBackAt else none }
  | _ => state

/-- What a call does to the candidate it has loaded: `set_weight` edits it, the others note the time. -/
def takes (c : Call) (state : CanaryState) (e : Op) : Prop :=
  match c with
  | .setWeight m _ => e = .edit m.replica (taken c state)
  | _ => e = .utcnow

/-- What a call writes of the candidate it has loaded: `set_weight` writes the candidate, `promote` the stable
    table. -/
def writesCopy (c : Call) (state : CanaryState) (config : RoutingConfig) (e : Op) : Prop :=
  match c with
  | .setWeight m _ => e = .redis (.set canaryKey (.canary (taken c state) (m.format.modelDumpJson config)) none false)
  | _ => ∃ promotedAt,
    e = .redis (.set stableKey (.stable state.version (c.manager.format.modelDumpJson config) promotedAt) none false)

/-- What `set_weight` and `promote` may do at each of their points. -/
def adminMonitor (c : Call) : Monitor Op Op.Reply Exn AdminPhase where
  may
    | .timed _, e => e = .readCache c.manager.replica
    | .stale, .writeCache replica _ => replica = c.manager.replica
    | .loaded cache, e => ∃ state config, cache.canary = some (state, config) ∧ takes c state e
    | .writing state config, e => writesCopy c state config e
    | .removing _ _, e => e = .redis (.del [canaryKey])
    | _, e => copies c e = false ∧ commits c e = false
  next
    | .idle, .clock _, r, g => ∃ now, r = .ok now ∧ g = .timed now
    | .timed now, .readCache _, r, g => ∃ cache, r = .ok cache ∧
        g = if cache.fetchedAt.any fun t => now - t < c.manager.settings.refreshSeconds then .loaded cache else .stale
    | .stale, .writeCache _ cache, r, g => r = .ok () ∧ g = .loaded cache
    | .loaded cache, _, _, g => g = match cache.canary with
      | some (state, config) => .writing state config
      | none => .done
    | .writing state config, .redis (.set k _ _ _), r, g =>
      g = if k = stableKey ∧ r.isOk = true then .removing state config else .done
    | .removing _ _, _, _, g => g = .done
    | g, _, _, g' => g' = g

/-- The other calls are not followed. -/
def idleMonitor : Monitor Op Op.Reply Exn AdminPhase where
  may _ _ := True
  next _ _ _ g := g = .idle

/-- Every call is watched for what it does with the copy it has loaded. -/
def adminWatch : Watch system where
  G := AdminPhase
  monitor c := if c.rewrites then adminMonitor c else idleMonitor
  first _ := .idle
  last _ _ _ := True

section Follow
variable {m : RolloutManager} {c : Call}

theorem done_call {e : Op} (h : copies c e = false) (h' : commits c e = false) :
    Follows (adminMonitor c) (fun _ g => g = .done) (.call e) .done :=
  Follows.call_iff.mpr ⟨⟨h, h'⟩, fun _ _ hn => hn⟩

theorem invalidate_done : Follows (adminMonitor c) (fun _ g => g = .done) m.invalidate .done := by
  refine (done_call rfl rfl).bind (fun cache g hg => ?_) fun _ _ hg => hg
  subst hg
  exact done_call rfl rfl

/-- A replica that reads its cache takes it as it is, or writes it anew. -/
theorem load_loads (hm : c.manager = m) : Follows (adminMonitor c)
    (fun r g => ∀ cache, r = .ok cache → g = .loaded cache) m.load .idle := by
  subst hm
  refine Follows.bind_iff.mpr (Follows.call_iff.mpr ⟨⟨rfl, rfl⟩, ?_⟩)
  rintro r g ⟨now, rfl, rfl⟩
  refine Follows.bind_iff.mpr (Follows.call_iff.mpr ⟨rfl, ?_⟩)
  rintro r g ⟨cache, rfl, rfl⟩
  show Follows _ _ (ite _ _ _) _
  split
  · rintro cache' ⟨⟩
    rfl
  · refine Follows.bind_iff.mpr (Follows.attempt_iff.mpr (Follows.call_iff.mpr ⟨?_, ?_⟩))
    · simp [adminMonitor, copies, commits, Cmd.writes]
    rintro r g ⟨⟩
    refine Follows.bind_iff.mpr (Follows.call_iff.mpr ⟨rfl, ?_⟩)
    rintro r g ⟨rfl, rfl⟩
    rintro cache' ⟨⟩
    rfl

theorem canary_loads (hm : c.manager = m) : Follows (adminMonitor c)
    (fun r g => ∀ canary, r = .ok (some canary) → ∃ cache, g = .loaded cache ∧ cache.canary = some canary) m.canary .idle := by
  refine Follows.bind_iff.mpr ((load_loads hm).mono fun r g h => ?_)
  cases r with
  | error _ => nofun
  | ok cache => exact fun canary hc => ⟨cache, h cache rfl, Except.ok.inj hc⟩

theorem setWeight_follows {weight : Int} :
    Follows (adminMonitor (.setWeight m weight)) (fun _ _ => True) (m.setWeight weight) .idle := by
  refine Follows.bind_iff.mpr ((canary_loads rfl).mono fun r g h => ?_)
  match r with
  | .error _ => trivial
  | .ok none => trivial
  | .ok (some (state, config)) =>
    obtain ⟨cache, rfl, hcanary⟩ := h _ rfl
    refine Follows.bind_iff.mpr (Follows.call_iff.mpr ⟨⟨state, config, hcanary, rfl⟩, fun r g hg => ?_⟩)
    obtain rfl : g = .writing state config := hg.trans (by rw [hcanary])
    cases r with
    | error _ => trivial
    | ok _ =>
      refine Follows.bind_iff.mpr (Follows.bind_iff.mpr (Follows.call_iff.mpr ⟨rfl, fun r g hg => ?_⟩))
      obtain rfl : g = .done := hg
      cases r with
      | error _ => trivial
      | ok _ => exact invalidate_done.mono fun r _ _ => by cases r <;> trivial

theorem promote_follows : Follows (adminMonitor (.promote m)) (fun _ _ => True) m.promote .idle := by
  refine Follows.bind_iff.mpr ((canary_loads rfl).mono fun r g h => ?_)
  match r with
  | .error _ => trivial
  | .ok none => trivial
  | .ok (some (state, config)) =>
    obtain ⟨cache, rfl, hcanary⟩ := h _ rfl
    refine Follows.bind_iff.mpr (Follows.call_iff.mpr ⟨⟨state, config, hcanary, rfl⟩, fun r g hg => ?_⟩)
    obtain rfl : g = .writing state config := hg.trans (by rw [hcanary])
    cases r with
    | error _ => trivial
    | ok now =>
      refine Follows.bind_iff.mpr (Follows.call_iff.mpr ⟨⟨now, rfl⟩, fun r g hg => ?_⟩)
      cases r with
      | error _ => trivial
      | ok _ =>
        obtain rfl : g = .removing state config := hg
        refine Follows.bind_iff.mpr (Follows.call_iff.mpr ⟨rfl, fun r g hg => ?_⟩)
        obtain rfl : g = .done := hg
        cases r with
        | error _ => trivial
        | ok _ => exact Follows.bind_iff.mpr (invalidate_done.mono fun r _ _ => by cases r <;> trivial)

theorem adminWatch_sound : adminWatch.Sound := by
  intro c
  cases c with
  | setWeight m weight => exact Follows.map setWeight_follows
  | promote m => exact Follows.map promote_follows
  | _ =>
    exact Follows.always (M := idleMonitor) (I := fun _ => True) (fun _ _ _ => trivial) (fun _ _ _ _ _ _ => trivial)
      (fun _ _ _ => trivial) trivial

end Follow

/-! ### What every step keeps -/

/-- What is known of a running call. -/
def AdminEntry (format : TableFormat) (s : State) (tr : List system.Event) (i : Nat) (c : Call) : AdminPhase → Prop
  | .loaded cache => (s.cache c.manager.replica).candidate = cache.candidate
  | .writing state config => s.candidate format = some (state.bare, config)
  | .removing state config => s.candidate format = some (state.bare, config) ∧
      promoted i tr = some (state.version, format.modelDumpJson config)
  | _ => True

/-- What holds of a call that has come to `g`. -/
structure AdminOk (format : TableFormat) (s : State) (tr : List system.Event) (i : Nat) (c : Call) (g : AdminPhase) : Prop where
  reads : c.manager.format = format
  unwatched : c.rewrites = false → g = .idle
  entry : AdminEntry format s tr i c g

/-- It holds of every call under way. -/
def Admins (format : TableFormat) (s : State) (tr : List system.Event) (Γ : Nat → Option (Call × AdminPhase)) : Prop :=
  ∀ i c g, Γ i = some (c, g) → AdminOk format s tr i c g

section Steps
variable {format : TableFormat} {s s' : State} {tr tr' : List system.Event} {Γ : Nat → Option (Call × AdminPhase)}
  {i : Nat} {c : Call} {g : AdminPhase}

/-- The phases in which the cached canary is known, and those in which the stored one is. -/
def AdminPhase.knowsCached : AdminPhase → Prop
  | .loaded _ => True
  | _ => False

/-- The call is about to write the stable table or to remove the candidate. -/
def AdminPhase.knowsStored : AdminPhase → Prop
  | .writing _ _ | .removing _ _ => True
  | _ => False

theorem AdminOk.keep (h : AdminOk format s tr i c g) (htr : promoted i tr' = promoted i tr)
    (hcached : g.knowsCached → (s'.cache c.manager.replica).candidate = (s.cache c.manager.replica).candidate)
    (hstored : g.knowsStored → s'.candidate format = s.candidate format) : AdminOk format s' tr' i c g := by
  refine ⟨h.reads, h.unwatched, ?_⟩
  cases g with
  | loaded cache => exact (hcached trivial).trans h.entry
  | writing state config => exact (hstored trivial).trans h.entry
  | removing state config => exact ⟨(hstored trivial).trans h.entry.1, htr.trans h.entry.2⟩
  | _ => trivial

theorem candidate_congr (h : s'.stored = s.stored) : s'.candidate format = s.candidate format := by
  rw [State.candidate, State.candidate, State.storedCanary, State.storedCanary, h]

/-- A call that knows the cached canary is about to take its copy. -/
theorem copies_of_may {e : Op} (hc : c.rewrites = true) (hmay : (adminMonitor c).may g e) (hg : g.knowsCached) :
    copies c e = true := by
  cases g with
  | loaded cache =>
    obtain ⟨state, config, -, ht⟩ := hmay
    cases c with
    | setWeight m weight =>
      obtain rfl : e = .edit m.replica _ := ht
      rfl
    | promote m =>
      obtain rfl : e = .utcnow := ht
      rfl
    | _ => cases hc
  | _ => exact hg.elim

/-- A call that knows the stored canary is about to write. -/
theorem commits_of_may {e : Op} (hc : c.rewrites = true) (hmay : (adminMonitor c).may g e) (hg : g.knowsStored) :
    commits c e = true := by
  cases g with
  | writing state config =>
    cases c with
    | setWeight m weight =>
      obtain rfl : e = .redis (.set canaryKey _ none false) := hmay
      simp [commits, hc, Cmd.writes]
    | promote m =>
      obtain ⟨promotedAt, rfl⟩ := hmay
      simp [commits, hc, Cmd.writes]
    | _ => cases hc
  | removing state config =>
    obtain rfl : e = .redis (.del [canaryKey]) := hmay
    simp [commits, hc, Cmd.writes]
  | _ => exact hg.elim

theorem promoted_other {j : Nat} {e : Op} {r : Except Exn e.Reply} (hj : j ≠ i) :
    promoted i (.did j c e r :: tr) = promoted i tr :=
  if_neg hj

theorem promoted_own {e : Op} {r : Except Exn e.Reply} :
    promoted i (.did i c e r :: tr) = (c.madeStable e).or (promoted i tr) :=
  if_pos rfl

/-- What the other calls hold is untouched by a step of call `i`. -/
theorem Admins.others {w : system.World} {Γ : Nat → Option (Call × AdminPhase)} {ch : Choice} {e : Op}
    {k : Except Exn e.Reply → Program Result} {r : Except Exn e.Reply} (hΓ : adminWatch.Shows w Γ)
    (h : Admins format w.state w.trace Γ) (hk : w.threads i = some ⟨c, .op e k⟩) (hex : exec e ch w.state = some (r, s'))
    (hP : Current format w (.op i ch)) {j : Nat} (hj : j ≠ i) {c' : Call} {g' : AdminPhase} (hg' : Γ j = some (c', g')) :
    AdminOk format s' (.did i c e r :: w.trace) j c' g' := by
  have hok := h j c' g' hg'
  cases hc' : c'.rewrites with
  | false =>
    obtain rfl := hok.unwatched hc'
    exact hok.keep (promoted_other hj.symm) False.elim False.elim
  | true =>
    obtain ⟨e', k', hp, hf⟩ := hΓ.waits hg'
    have hmay : (adminWatch.monitor c').may g' e' := (Follows.op_iff.mp hf).1
    rw [show adminWatch.monitor c' = adminMonitor c' from if_pos hc'] at hmay
    obtain ⟨hcached, hstored⟩ := hP.2 j c' e' k' hj hp c e k r s' hk hex
    exact hok.keep (promoted_other hj.symm) (fun hg => hcached (copies_of_may hc' hmay hg))
      fun hg => hstored (commits_of_may hc' hmay hg)

/-- What call `i` holds after its own step. -/
theorem Admins.own {w : system.World} {ch : Choice} {e : Op} {k : Except Exn e.Reply → Program Result} {r : Except Exn e.Reply}
    (h : AdminOk format w.state w.trace i c g) (hk : w.threads i = some ⟨c, .op e k⟩)
    (hmay : (adminWatch.monitor c).may g e) (hex : exec e ch w.state = some (r, s')) (hP : Current format w (.op i ch)) :
    ∃ g', (adminWatch.monitor c).next g e r g' ∧ AdminOk format s' (.did i c e r :: w.trace) i c g' := by
  cases hc : c.rewrites with
  | false =>
    rw [show adminWatch.monitor c = idleMonitor from if_neg (by simp [hc])]
    exact ⟨.idle, rfl, h.reads, fun _ => rfl, trivial⟩
  | true =>
    rw [show adminWatch.monitor c = adminMonitor c from if_pos hc] at hmay ⊢
    have watched : ∀ {g'}, AdminEntry format s' (.did i c e r :: w.trace) i c g' →
        AdminOk format s' (.did i c e r :: w.trace) i c g' := fun hentry =>
      ⟨h.reads, fun hn => absurd (hn.symm.trans hc) Bool.false_ne_true, hentry⟩
    cases g with
    | idle =>
      cases e with
      | clock replica =>
        cases ch <;> cases hex
        exact ⟨.timed _, ⟨_, rfl, rfl⟩, watched trivial⟩
      | _ => exact ⟨.idle, rfl, watched trivial⟩
    | timed now =>
      obtain rfl : e = .readCache c.manager.replica := hmay
      cases ch <;> cases hex
      refine ⟨_, ⟨_, rfl, rfl⟩, watched ?_⟩
      split
      · exact rfl
      · trivial
    | stale =>
      cases e with
      | writeCache replica cache =>
        obtain rfl : replica = c.manager.replica := hmay
        cases ch <;> cases hex
        exact ⟨.loaded cache, ⟨rfl, rfl⟩, watched (congrArg Cached.candidate (Function.update_self ..))⟩
      | _ => exact ⟨.stale, rfl, watched trivial⟩
    | loaded cache =>
      obtain ⟨state, config, hcanary, ht⟩ := hmay
      refine ⟨.writing state config, by simp [adminMonitor, hcanary], watched ?_⟩
      have hcached : cache.candidate = some (state.bare, config) := by rw [Cached.candidate, hcanary, Option.map_some]
      have hcopy (hcopies : copies c e = true) : w.state.candidate format = some (state.bare, config) :=
        (hP.1 c e k hk hcopies).trans (h.entry.trans hcached)
      cases c with
      | setWeight m weight =>
        obtain rfl : e = .edit m.replica _ := ht
        exact (candidate_congr (exec_stored rfl hex)).trans (hcopy rfl)
      | promote m =>
        obtain rfl : e = .utcnow := ht
        exact (candidate_congr (exec_stored rfl hex)).trans (hcopy rfl)
      | _ => cases hc
    | writing state config =>
      cases c with
      | setWeight m weight =>
        obtain rfl : e = .redis (.set canaryKey _ none false) := hmay
        exact ⟨.done, rfl, watched trivial⟩
      | promote m =>
        obtain ⟨promotedAt, rfl⟩ := hmay
        refine ⟨_, rfl, watched ?_⟩
        split
        · refine ⟨(candidate_congr (exec_stored (by simp [Op.writesCanary, Cmd.writes, canaryKey, stableKey]) hex)).trans h.entry, ?_⟩
          rw [promoted_own]
          exact congrArg (fun f : TableFormat => some (state.version, f.modelDumpJson config)) h.reads
        · trivial
      | _ => cases hc
    | removing state config => exact ⟨.done, rfl, watched trivial⟩
    | done => exact ⟨.done, by cases e <;> rfl, watched trivial⟩

theorem adminRules (format : TableFormat) : Rules adminWatch (Current format) (Admins format) where
  start {w Γ i c} hshows h hi hadm hP := by
    intro j c' g' hj
    rcases board_entry hj with ⟨rfl, heq⟩ | ⟨hne, hj⟩
    · cases heq
      exact ⟨hP, fun _ => rfl, trivial⟩
    · exact (h j c' g' hj).keep (if_neg hne.symm) (fun _ => rfl) fun _ => rfl
  op {w Γ i ch c g e r s} hshows h hi hth hmay hex hP := by
    obtain ⟨k, hk⟩ := hth
    obtain ⟨g', hnext, hown⟩ := Admins.own (h i c g hi) hk hmay hex hP
    refine ⟨g', hnext, fun j c' g'' hj => ?_⟩
    rcases board_entry hj with ⟨rfl, heq⟩ | ⟨hne, hj⟩
    · cases heq
      exact hown
    · exact Admins.others hshows h hk hex hP hne hj
  ended h hi _ := fun j c' g' hj => (h j c' g' (clear_entry hj).2).keep rfl (fun _ => rfl) fun _ => rfl
  kill _ h _ _ _ := fun j c' g' hj => (h j c' g' (clear_entry hj).2).keep rfl (fun _ => rfl) fun _ => rfl
  env {w Γ b s} _ h hs _ := by
    simp only [system] at hs
    split at hs
    · cases hs
      exact fun j c g hj => (h j c g hj).keep rfl (fun _ => rfl) fun _ => candidate_congr rfl
    · cases hs

/-- A call that sends a command on the canary or the stable table writes its copy, or removes the canary. -/
theorem writing_or_removing {cmd : Cmd Blob} (hmay : (adminMonitor c).may g (.redis cmd)) (hcommits : commits c (.redis cmd) = true) :
    (∃ state config, g = .writing state config ∧ writesCopy c state config (.redis cmd)) ∨
      ∃ state config, g = .removing state config ∧ cmd = .del [canaryKey] := by
  have hnot : ¬commits c (.redis cmd) = false := fun h => absurd (h.symm.trans hcommits) Bool.false_ne_true
  cases g with
  | timed now => cases hmay
  | loaded cache =>
    obtain ⟨state, config, -, ht⟩ := hmay
    cases c <;> cases ht
  | writing state config => exact Or.inl ⟨state, config, rfl, hmay⟩
  | removing state config =>
    cases hmay
    exact Or.inr ⟨state, config, rfl, rfl⟩
  | _ => exact absurd hmay.2 hnot

theorem stored_of_candidate {state : CanaryState} {config : RoutingConfig} (h : s.candidate format = some (state.bare, config)) :
    ∃ stored text, s.storedCanary = some (stored, text) ∧ format.fromText text = some config ∧ stored.bare = state.bare := by
  obtain ⟨⟨stored, text⟩, hstored, htable⟩ := Option.bind_eq_some_iff.mp h
  obtain ⟨table, htext, heq⟩ := Option.map_eq_some_iff.mp htable
  obtain ⟨hbare, rfl⟩ := Prod.mk.inj heq
  exact ⟨stored, text, hstored, htext, hbare⟩

theorem storedVersion_eq : s.storedVersion = s.storedCanary.map fun c => c.1.version := by
  unfold State.storedVersion State.storedCanary
  cases s.stored with
  | none => rfl
  | some v =>
    cases v with
    | str b => cases b <;> rfl
    | _ => rfl

theorem storedVersion_of_candidate {state : CanaryState} {config : RoutingConfig}
    (h : s.candidate format = some (state.bare, config)) : s.storedVersion = some state.version := by
  obtain ⟨stored, text, hstored, -, hbare⟩ := stored_of_candidate h
  have hversion : stored.version = state.version := congrArg (fun s => s.version) hbare
  rw [storedVersion_eq, hstored, Option.map_some, hversion]

/-- A version that is written over with itself. -/
theorem storedVersion_written {ch : Choice} {r : Except Exn (Redis.Reply Blob)} {state : CanaryState} {text version : String}
    (hex : exec (.redis (.set canaryKey (.canary state text) none false)) ch s = some (r, s'))
    (hstate : state.version = version) (hv : s.storedVersion = some version) : s'.storedVersion = some version := by
  have hset : ∀ {store}, ({ s with store := (Redis.exec 0 (.set canaryKey (.canary state text) none false) store).2 } :
      State).storedVersion = some version := by
    intro store
    have hvalue : value? 0 (Redis.exec 0 (.set canaryKey (.canary state text) none false) store).2 canaryKey =
        some (.str (.canary state text)) := value?_set
    rw [State.storedVersion, State.stored, hvalue, ← hstate]
  cases ch with
  | ok =>
    cases hex
    exact hset
  | lost applied =>
    cases applied <;> cases hex
    · exact hv
    · exact hset
  | _ => cases hex

end Steps

/-- Undisturbed admin actions act on the stored canary. -/
theorem admins_act_on_stored {format : TableFormat} (hdump : format.RoundTrips) (s : State) :
    AdminsActOnStored format (Current format) s := by
  intro w w' i ch hr _ hs
  obtain ⟨Γ, hΓ, h⟩ := (adminRules format).reaches adminWatch_sound hr ⟨fun _ => none, fun _ => rfl, fun _ _ _ h => nomatch h⟩
  have entry : ∀ {c e k}, w.threads i = some ⟨c, .op e k⟩ → c.rewrites = true →
      ∃ g, (adminMonitor c).may g e ∧ AdminOk format w.state w.trace i c g := fun {c e k} ht hc => by
    obtain ⟨g, hg, hf⟩ := hΓ.of_thread ht
    have hmay : (adminWatch.monitor c).may g e := (Follows.op_iff.mp hf).1
    rw [show adminWatch.monitor c = adminMonitor c from if_pos hc] at hmay
    exact ⟨g, hmay, h i c g hg⟩
  refine ⟨fun m weight b k ht => ?_, fun m b k ht => ?_, fun m k ht state text hstored => ?_, fun w'' c p ht hc hs' => ?_⟩
  · obtain ⟨g, hmay, hok⟩ := entry ht rfl
    rcases writing_or_removing hmay (by simp [commits, Call.rewrites, Cmd.writes]) with
      ⟨state, config, rfl, hwrites⟩ | ⟨_, _, _, heq⟩
    · cases hwrites
      obtain ⟨stored, text, hstored, htext, hbare⟩ := stored_of_candidate hok.entry
      have hreads : m.format = format := hok.reads
      refine ⟨stored, text, _, _, config, hstored, rfl, hbare.symm, rfl, htext, ?_⟩
      rw [hreads]
      exact hdump _ _ htext
    · cases heq
  · obtain ⟨g, hmay, hok⟩ := entry ht rfl
    rcases writing_or_removing hmay (by simp [commits, Call.rewrites, Cmd.writes]) with
      ⟨state, config, rfl, hwrites⟩ | ⟨_, _, _, heq⟩
    · obtain ⟨promotedAt, hwrites⟩ := hwrites
      cases hwrites
      obtain ⟨stored, text, hstored, htext, hbare⟩ := stored_of_candidate hok.entry
      have hreads : m.format = format := hok.reads
      have hversion : stored.version = state.version := congrArg (fun s => s.version) hbare
      exact ⟨stored, text, config, promotedAt, hstored, htext, by rw [hversion, ← hreads]; rfl⟩
    · cases heq
  · obtain ⟨g, hmay, hok⟩ := entry ht rfl
    rcases writing_or_removing hmay (by simp [commits, Call.rewrites, Cmd.writes]) with
      ⟨state', config, rfl, hwrites⟩ | ⟨state', config, rfl, -⟩
    · obtain ⟨promotedAt, hwrites⟩ := hwrites
      cases hwrites
    · obtain ⟨stored, text', hstored', htext, hbare⟩ := stored_of_candidate hok.entry.1
      rw [hstored] at hstored'
      cases hstored'
      have hversion : state.version = state'.version := congrArg (fun s => s.version) hbare
      exact ⟨config, htext, hversion ▸ hok.entry.2⟩
  · obtain ⟨c', e, k, r, ht', hex⟩ := step_state hs'
    rw [ht] at ht'
    cases ht'
    intro version hversion
    cases hw : e.writesCanary with
    | false => exact Or.inl ((storedVersion_congr (exec_stored hw hex)).trans hversion)
    | true =>
      obtain ⟨g, hmay, hok⟩ := entry ht hc
      cases e with
      | redis cmd =>
        have hmem : canaryKey ∈ cmd.writes := of_decide_eq_true hw
        rcases writing_or_removing hmay (by simp [commits, hc, hmem]) with ⟨state, config, rfl, hwrites⟩ | ⟨state, config, rfl, -⟩
        · obtain rfl : state.version = version := Option.some.inj ((storedVersion_of_candidate hok.entry).symm.trans hversion)
          cases c with
          | setWeight m weight =>
            cases hwrites
            exact Or.inl (storedVersion_written hex rfl hversion)
          | promote m =>
            obtain ⟨promotedAt, hwrites⟩ := hwrites
            cases hwrites
            exact absurd (List.mem_singleton.mp hmem) (by decide)
          | _ => cases hc
        · obtain rfl : state.version = version :=
            Option.some.inj ((storedVersion_of_candidate hok.entry.1).symm.trans hversion)
          exact Or.inr ⟨_, hok.entry.2⟩
      | _ => cases hw

/-! ### A replica that promotes the canary that it has cached -/

namespace StaleCopy
open StaleReplica (text format manager versionA versionB okay)

/-- A canary is published on one replica and seen by the other, and replaced on the first; the second then promotes. -/
def acts : List system.Act :=
  [.start 0 (.publish (manager 0) (text "a") 100 none), .op 0 (.text "t0")] ++ okay 0 4 ++
  [.start 1 (.select (manager 1))] ++ okay 1 4 ++ [.op 1 (.number 0)] ++
  [.start 2 (.publish (manager 0) (text "b") 100 none), .op 2 (.text "t1")] ++ okay 2 4 ++
  [.start 3 (.promote (manager 1))] ++ okay 3 2 ++ [.op 3 (.text "t2")]

/-- The call that is about to make the first canary stable. -/
def promotesA (t : system.Thread) : Bool :=
  match t with
  | ⟨.promote _, .op (.redis (.set k (.stable version _ _) none false)) _⟩ => k == stableKey && version == versionA
  | _ => false

theorem about_to_promote : ((quiet {}).run acts).any (fun w => (w.threads 3).any promotesA) = true := by decide +kernel

theorem stored_then : ((quiet {}).run acts).bind (fun w => w.state.storedVersion) = some versionB := by decide +kernel

theorem goes_on : ((quiet {}).run acts).any (fun w => (w.step (.op 3 .ok)).isSome) = true := by decide +kernel

/-- The second replica makes the old canary stable. -/
theorem not_admins_act_on_stored : ¬AdminsActOnStored format World.anyStep {} := by
  intro h
  obtain ⟨w, hw, hv⟩ := Option.bind_eq_some_iff.mp stored_then
  have hcall := about_to_promote
  have hstep := goes_on
  rw [hw] at hcall hstep
  obtain ⟨w', hw'⟩ := Option.isSome_iff_exists.mp hstep
  obtain ⟨t, ht, hpromotes⟩ := (Option.any_eq_true promotesA (w.threads 3)).mp hcall
  unfold promotesA at hpromotes
  split at hpromotes
  · obtain ⟨hk, hversion⟩ := Bool.and_eq_true_iff.mp hpromotes
    obtain rfl := beq_iff_eq.mp hk
    obtain rfl := beq_iff_eq.mp hversion
    obtain ⟨state, stored, table, promotedAt, hstored, -, hb⟩ :=
      (h w w' 3 .ok (World.reaches_of_run (fun _ _ _ => trivial) hw) trivial hw').promotes _ _ _ ht
    have hstate : versionA = state.version := (Blob.stable.inj hb).1
    have hstored' : State.storedVersion w.state = some versionA :=
      (@storedVersion_eq w.state).trans (by rw [hstored, hstate]; rfl)
    exact absurd (hstored'.symm.trans hv) (by decide)
  · cases hpromotes

/-! The second replica sets a weight and promotes while the canary that it has read is the one that is stored. -/

/-- The acts up to where the canary is about to be made stable. -/
def currentActs : List system.Act :=
  [.start 0 (.publish (manager 0) (text "a") 100 none), .op 0 (.text "t0")] ++ okay 0 4 ++
  [.start 1 (.setWeight (manager 1) 50)] ++ okay 1 5 ++ [.start 3 (.canary (manager 0))] ++ okay 3 2 ++ okay 1 3 ++ okay 3 2 ++
  [.start 2 (.promote (manager 1))] ++ okay 2 4 ++ [.op 2 (.text "t1")]

instance : DecidableEq RoutingConfig := fun c c' =>
  decidable_of_iff (c.routes.entries = c'.routes.entries) ⟨fun h => by
    obtain ⟨routes, _, _⟩ := c
    obtain ⟨routes', _, _⟩ := c'
    obtain rfl : routes = routes' := AList.ext h
    rfl, fun h => h ▸ rfl⟩

/-- Where thread `j` takes its copy that is the stored canary, before the step of thread `i` and after it, and where it
    writes, another thread changes nothing. -/
def upToDate (w w' : system.World) (i j : Nat) : Bool :=
  match w.threads j with
  | some ⟨c, .op e _⟩ =>
    (!copies c e || (decide (w.state.candidate format = (w.state.cache c.manager.replica).candidate) &&
      decide ((w'.state.cache c.manager.replica).candidate = (w.state.cache c.manager.replica).candidate))) &&
    (j == i || !commits c e || decide (w'.state.candidate format = w.state.candidate format))
  | _ => true

/-- After the step every copy is up to date, as far as the step bears on it. -/
def current (w : system.World) (a : system.Act) : Bool :=
  match a with
  | .op i _ => (w.step a).any fun w' => (List.range 4).all (upToDate w w' i)
  | _ => true

theorem current_of_check {w : system.World} {a : system.Act} (hstart : ∀ i c, a = .start i c → c.manager.format = format)
    (hbound : ∀ j, 4 ≤ j → w.threads j = none) (h : current w a = true) : Current format w a := by
  cases a with
  | start i c => exact hstart i c rfl
  | op i ch =>
    obtain ⟨w', hw', hall⟩ := (Option.any_eq_true _ _).mp h
    have hthread : ∀ {j c e k}, w.threads j = some ⟨c, .op e k⟩ →
        (copies c e = true → w.state.candidate format = (w.state.cache c.manager.replica).candidate ∧
          (w'.state.cache c.manager.replica).candidate = (w.state.cache c.manager.replica).candidate) ∧
        (j ≠ i → commits c e = true → w'.state.candidate format = w.state.candidate format) := fun {j c e k} ht => by
      have hj : j < 4 := by
        by_contra hge
        rw [hbound j (Nat.le_of_not_lt hge)] at ht
        cases ht
      have hcheck := List.all_eq_true.mp hall j (List.mem_range.mpr hj)
      simp only [upToDate, ht, Bool.and_eq_true, Bool.or_eq_true, Bool.not_eq_true', decide_eq_true_eq, beq_iff_eq] at hcheck
      refine ⟨fun hcopies => hcheck.1.resolve_left (by simp [hcopies]), fun hne hcommits => ?_⟩
      rcases hcheck.2 with (heq | hno) | hsame
      · exact absurd heq hne
      · rw [hno] at hcommits
        cases hcommits
      · exact hsame
    refine ⟨fun c e k ht hcopies => ((hthread ht).1 hcopies).1, fun j c e k hji hj c' e' k' r s ht hex => ?_⟩
    obtain ⟨c₁, e₁, k₁, r₁, ht₁, hex₁⟩ := step_state hw'
    rw [ht] at ht₁
    cases ht₁
    rw [hex] at hex₁
    cases hex₁
    exact ⟨fun hcopies => ((hthread hj).1 hcopies).2, (hthread hj).2 hji⟩
  | _ => trivial

theorem current_run : ((quiet {}).runIf current currentActs).any (fun w => current w (.op 2 .ok) &&
    w.state.storedVersion == some versionA && (w.threads 2).any promotesA &&
    w.state.storedCanary.any (fun c => c.1.weight == 50) && (w.step (.op 2 .ok)).isSome) = true := by
  decide +kernel

/-- The second replica makes the canary stable that is stored, with the weight that it has set. -/
theorem current_act_on_stored : ∃ w w', World.Reaches (Current format) (quiet {}) w ∧ Current format w (.op 2 .ok) ∧
    w.step (.op 2 .ok) = some w' ∧ (w.threads 2).any promotesA = true ∧ w.state.storedVersion = some versionA ∧
    ActsOnStored format w 2 .ok := by
  have hstart : ∀ a ∈ currentActs, ∀ i c, a = .start i c → c.manager.format = format := by
    intro a ha i c heq
    subst heq
    simp [currentActs, okay] at ha
    rcases ha with ⟨-, rfl⟩ | ⟨-, rfl⟩ | ⟨-, rfl⟩ | ⟨-, rfl⟩ <;> rfl
  obtain ⟨w, hw, hchecks⟩ := (Option.any_eq_true _ _).mp current_run
  simp only [Bool.and_eq_true, beq_iff_eq] at hchecks
  obtain ⟨⟨⟨⟨hcurrent, hstored⟩, hpromotes⟩, -⟩, hstep⟩ := hchecks
  obtain ⟨w', hw'⟩ := Option.isSome_iff_exists.mp hstep
  obtain ⟨hreach, hbound⟩ := World.reaches_of_runIf_below (fun w a ha => current_of_check (hstart a ha)) (by decide)
    (fun _ _ => rfl) hw
  have hcondition : Current format w (.op 2 .ok) := current_of_check nofun hbound hcurrent
  exact ⟨w, w', hreach, hcondition, hw', hpromotes, hstored,
    admins_act_on_stored OneManager.format_roundTrips {} w w' 2 .ok hreach hcondition hw'⟩

end StaleCopy
end NexusGate.Gateway.Rollout
