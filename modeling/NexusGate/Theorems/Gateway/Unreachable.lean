import NexusGate.Theorems.Gateway.Unmade
import NexusGate.Theorems.Gateway.Walk

/-! # Sharing breakers through a Redis that cannot be reached

Run side by side from the same breakers, a router that shares them and the same router without `cluster` return
and raise the same, and leave the same breakers. The one that shares them makes the breakers of a whole chain
before it walks along it, so it may have made some that the other has not come to. -/

namespace NexusGate.Gateway.Router
open Async Redis

/-- The breakers, the clock they read and the calls to come are the same; the first may have made more of them. -/
structure Matches (s t : Scene) : Prop where
  breakers : s.breakers = t.breakers
  ticks : s.ticks = t.ticks
  answers : s.answers = t.answers
  others : s.others = t.others
  calls : s.calls = t.calls
  latencyMs : s.latencyMs = t.latencyMs
  known : ∀ replica, t.known replica ⊆ s.known replica

theorem Matches.refl (s : Scene) : Matches s s := ⟨rfl, rfl, rfl, rfl, rfl, rfl, fun _ _ h => h⟩

/-- The first may make a breaker more. -/
theorem Matches.create_left {s t : Scene} (h : Matches s t) {replica : Nat} {name : String} :
    Matches (s.create replica name) t :=
  { h with
    breakers := Scene.breakers_create.trans h.breakers
    known := fun r _ hn => State.mem_create.mpr (Or.inl (h.known r hn)) }

theorem Matches.create {s t : Scene} (h : Matches s t) {replica : Nat} {name : String} :
    Matches (s.create replica name) (t.create replica name) where
  breakers := by rw [Scene.breakers_create, Scene.breakers_create, h.breakers]
  ticks := h.ticks
  answers := h.answers
  others := h.others
  calls := h.calls
  latencyMs := h.latencyMs
  known r n hn := State.mem_create.mpr ((State.mem_create.mp hn).imp_left (h.known r ·))

theorem Matches.ask {s t : Scene} (h : Matches s t) {replica : Nat} {name : String} {m : CircuitBreaker.Method} :
    (s.ask replica name m).1 = (t.ask replica name m).1 ∧
      Matches (s.ask replica name m).2 (t.ask replica name m).2 := by
  obtain ⟨⟨store, time, breakers, known, syncedAt⟩, ticks, monotonic, answers, others, remote, calls, latencyMs⟩ := s
  obtain ⟨hb, ht, ha, ho, hc, hl, hk⟩ := h
  cases hb
  cases ht
  cases ha
  cases ho
  cases hc
  cases hl
  exact ⟨rfl, rfl, rfl, rfl, rfl, rfl, rfl, hk⟩

theorem Matches.spend {s t : Scene} (h : Matches s t) : Matches s.spend t.spend :=
  { h with
    answers := congrArg Stream'.tail h.answers, latencyMs := congrArg (fun a => a.head.latencyMs) h.answers }

theorem Matches.spendOn {s t : Scene} (h : Matches s t) {dep : Deployment} :
    Matches (s.spendOn dep) (t.spendOn dep) :=
  { h.spend with calls := by rw [Scene.spendOn, Scene.spendOn, h.calls, h.answers] }

/-- Operations that do not concern what is shared. -/
def Op.own : Op → Bool
  | .redis _ | .monotonic _ | .syncedAt _ | .stamp _ _ | .known _ _ | .breakerNames _ => false
  | _ => true

section
variable {up : Bool}

/-- Without Redis on the one side, and without sharing on the other, the two programs do the same. -/
abbrev SideBySide (up : Bool) {α : Type} (p q : Program α) : Prop := Alike (answer false) (answer up) Matches p q

theorem call_side {e : Op} (he : e.own = true) : SideBySide up (.call e) (.call e) := by
  refine .call fun s t h => ?_
  cases e with
  | breaker replica name m =>
    obtain ⟨hr, hm⟩ := @Matches.ask s t h replica name m
    exact ⟨congrArg Except.ok hr, hm⟩
  | create replica name => exact ⟨rfl, h.create⟩
  | fault deployment =>
    simp only [answer, h.answers]
    split
    · exact ⟨rfl, h.spend⟩
    · exact ⟨rfl, h⟩
  | complete dep request => exact ⟨congrArg (fun a : Stream' Answer => Except.ok a.head.whole) h.answers, h.spendOn⟩
  | stream dep request => exact ⟨congrArg (fun a : Stream' Answer => Except.ok a.head.script) h.answers, h.spendOn⟩
  | msSince => exact ⟨congrArg Except.ok h.latencyMs, h⟩
  | sleep _ => exact ⟨rfl, h⟩
  | wait _ => exact ⟨rfl, h⟩
  | aclose => exact ⟨rfl, h⟩
  | hangUp => exact ⟨rfl, h⟩
  | gauge _ _ _ => exact ⟨rfl, h⟩
  | spent _ _ _ => exact ⟨rfl, h⟩
  | _ => cases he

theorem caught_side {α : Type} {p q : Program α} (h : SideBySide up p q) : SideBySide up (caught p) (caught q) := by
  refine h.attempt.bind fun r => ?_
  cases r with
  | ok a => exact .ret _
  | error x =>
    show SideBySide up (ite _ _ _) (ite _ _ _)
    split
    · exact .ret _
    · exact .throw _

/-! ### What sharing comes to without Redis -/

theorem pipeline_down : ∀ {cs : List (Cmd Int)} {s : Scene},
    Ends (answer false) (pipeline cs) s fun r s' => (r = .error .redisError ∨ cs = [] ∧ r = .ok []) ∧ s' = s
  | [], _ => .ret ⟨Or.inr ⟨rfl, rfl⟩, rfl⟩
  | c :: cs, s => by
    have first : Ends (answer false) (redis c).attempt s fun r s' => r = .ok (.error .redisError) ∧ s' = s :=
      .attempt (.call ⟨rfl, rfl⟩)
    refine first.bind (fun o s₁ ho => ?_) fun _ _ hx => by cases hx.1
    obtain ⟨ho, rfl⟩ := ho
    cases ho
    have others : Ends (answer false) (pipeline cs).attempt s₁ fun r s' => (∃ o, r = .ok o) ∧ s' = s₁ :=
      .attempt (pipeline_down.mono fun r _ hr => ⟨⟨r, rfl⟩, hr.2⟩)
    refine others.bind (fun os s₂ hos => ?_) fun _ _ hx => by cases hx.1.choose_spec
    obtain rfl := hos.2
    exact .throw ⟨Or.inl rfl, rfl⟩

theorem caught_pipeline_down {cs : List (Cmd Int)} {s : Scene} :
    Ends (answer false) (caught (pipeline cs)) s fun r s' =>
      (r = .ok (.error .redisError) ∨ cs = [] ∧ r = .ok (.ok [])) ∧ s' = s := by
  refine ends_caught (pipeline_down.mono fun r s' hr => ?_)
  obtain ⟨rfl | ⟨rfl, rfl⟩, rfl⟩ := hr
  · exact ⟨fun x hx => (by cases hx; rfl), Or.inl rfl, rfl⟩
  · exact ⟨fun x hx => (by cases hx), Or.inr ⟨rfl, rfl⟩, rfl⟩

theorem caught_redis_down {c : Cmd Int} {s : Scene} :
    Ends (answer false) (caught (redis c)) s fun r s' => r = .ok (.error .redisError) ∧ s' = s :=
  ends_caught (.call ⟨fun x hx => (by cases hx; rfl), rfl, rfl⟩)

section
variable {cluster : ClusterBreakers} {replica : Nat} {name : String} {s : Scene}

theorem publishOpen_down : Ends (answer false) (cluster.publishOpen name) s fun r s' => r = .ok () ∧ s' = s := by
  refine caught_pipeline_down.bind (fun o s₁ ho => ?_) fun x s₁ hx => ?_
  · exact .ret ⟨rfl, ho.2⟩
  · rcases hx.1 with hx | ⟨-, hx⟩ <;> cases hx

/-- Recording a failure comes to recording it on the breaker. -/
theorem recordFailure_down : Ends (answer false) (cluster.recordFailure replica name) s fun r s' =>
    r = .ok (s.ask replica name .recordFailure).1 ∧ s' = (s.ask replica name .recordFailure).2 := by
  have asked : Ends (answer false) (breaker replica name .recordFailure) s fun r s' =>
    r = .ok (s.ask replica name .recordFailure).1 ∧ s' = (s.ask replica name .recordFailure).2 := .call ⟨rfl, rfl⟩
  refine asked.bind (fun opened s₁ ho => ?_) fun _ _ hx => by cases hx.1
  obtain ⟨ho, rfl⟩ := ho
  rw [← Except.ok.inj ho]
  cases opened with
  | true => exact publishOpen_down.bind (fun _ s₂ hs => .ret ⟨rfl, hs.2⟩) fun _ _ hx => by cases hx.1
  | false =>
    refine caught_pipeline_down.bind (fun o s₂ hs => ?_) fun x s₁ hx => ?_
    · obtain ⟨hs | ⟨hs, -⟩, rfl⟩ := hs
      · cases hs
        exact .ret ⟨rfl, rfl⟩
      · cases hs
    · rcases hx.1 with hx | ⟨-, hx⟩ <;> cases hx

theorem recordSuccess_down : Ends (answer false) (cluster.recordSuccess replica name) s fun r s' =>
    r = .ok () ∧ s' = (s.ask replica name .recordSuccess).2 := by
  have asked : Ends (answer false) (breaker replica name .recordSuccess) s fun r s' =>
    r = .ok () ∧ s' = (s.ask replica name .recordSuccess).2 := .call ⟨rfl, rfl⟩
  refine asked.bind (fun _ s₁ ho => ?_) fun _ _ hx => by cases hx.1
  obtain rfl := ho.2
  exact caught_redis_down.bind (fun _ s₂ hs => .ret ⟨rfl, hs.2⟩) fun _ _ hx => by cases hx.1

/-- A sync moves the clock of the cluster and nothing else. -/
theorem sync_down {names : List String} : Ends (answer false) (cluster.sync replica names) s fun r s' =>
    r = .ok () ∧ ∀ t, Matches s t → Matches s' t := by
  refine Ends.bind (P := fun r s' => (∃ now, r = .ok now) ∧ ∀ t, Matches s t → Matches s' t)
    (.call ⟨⟨_, rfl⟩, fun t h => { h with }⟩) (fun now s₁ h₁ => ?_) fun _ _ hx => by cases hx.1.choose_spec
  refine Ends.bind (P := fun r s' => (∃ at', r = .ok at') ∧ s' = s₁) (.call ⟨⟨_, rfl⟩, rfl⟩) (fun syncedAt s₂ h₂ => ?_)
    fun _ _ hx => by cases hx.1.choose_spec
  obtain rfl := h₂.2
  show Ends _ (ite _ _ _) _ _
  split
  · exact .ret ⟨rfl, h₁.2⟩
  · refine Ends.bind (P := fun r s' => r = .ok () ∧ ∀ t, Matches s₂ t → Matches s' t)
      (.call ⟨rfl, fun t h => { h with }⟩) (fun _ s₃ h₃ => ?_) fun _ _ hx => by cases hx.1
    refine caught_pipeline_down.bind (fun o s₄ h₄ => ?_) fun x s₄ hx => ?_
    · obtain ⟨h₄ | ⟨hnil, h₄⟩, rfl⟩ := h₄
      · cases h₄
        exact .ret ⟨rfl, fun t h => h₃.2 t (h₁.2 t h)⟩
      · cases h₄
        cases names with
        | nil => exact .ret ⟨rfl, fun t h => h₃.2 t (h₁.2 t h)⟩
        | cons name names => cases hnil
    · rcases hx.1 with hx | ⟨-, hx⟩ <;> cases hx

end

/-- A program that comes to asking a breaker. -/
theorem ask_side {replica : Nat} {name : String} {m : CircuitBreaker.Method} {p : Program m.Reply}
    (hp : ∀ s, Ends (answer false) p s fun r s' => r = .ok (s.ask replica name m).1 ∧ s' = (s.ask replica name m).2) :
    SideBySide up p (breaker replica name m) := by
  intro s t h
  obtain ⟨hr, hs⟩ := hp s
  obtain ⟨hreply, hm⟩ := @Matches.ask s t h replica name m
  rw [hr, hs]
  exact ⟨congrArg Except.ok hreply, hm⟩

/-- A program that the other side does without. -/
theorem extra_side {p : Program Unit}
    (hp : ∀ s, Ends (answer false) p s fun r s' => r = .ok () ∧ ∀ t, Matches s t → Matches s' t) :
    SideBySide up p (.ret ()) :=
  fun s t h => ⟨(hp s).1, (hp s).2 t h⟩

end
end NexusGate.Gateway.Router

namespace NexusGate.Gateway.LLMRouter
open Async Redis Router

/-- The same router, with breakers of its own. -/
def alone (self : LLMRouter) : LLMRouter := { self with cluster := none }

variable {self : LLMRouter} {up : Bool}

theorem failed_side {name : String} : SideBySide up (self.failed name) (self.alone.failed name) := by
  show SideBySide up _ (breaker self.replica name .recordFailure)
  unfold failed
  split
  · exact @ask_side up self.replica name .recordFailure _ fun _ => recordFailure_down
  · exact call_side rfl

theorem succeeded_side {name : String} : SideBySide up (self.succeeded name) (self.alone.succeeded name) := by
  show SideBySide up _ (breaker self.replica name .recordSuccess)
  unfold succeeded
  split
  · exact @ask_side up self.replica name .recordSuccess _ fun _ => recordSuccess_down
  · exact call_side rfl

theorem noteFailure_side {name : String} : SideBySide up (self.noteFailure name) (self.alone.noteFailure name) := by
  refine failed_side.bind fun opened => ?_
  cases opened with
  | true => exact call_side rfl
  | false => exact .ret _

theorem noteSuccess_side {name : String} : SideBySide up (self.noteSuccess name) (self.alone.noteSuccess name) :=
  succeeded_side.bind fun _ => call_side rfl

theorem createAll_down : ∀ {names : List String} {s : Scene},
    Ends (answer false) (self.createAll names) s fun r s' => r = .ok () ∧ ∀ t, Matches s t → Matches s' t
  | [], _ => .ret ⟨rfl, fun _ h => h⟩
  | name :: names, s =>
    Ends.bind (P := fun r s' => r = .ok () ∧ ∀ t, Matches s t → Matches s' t)
      (.call ⟨rfl, fun _ h => h.create_left⟩)
      (fun _ _ h => createAll_down.mono fun _ _ h' => ⟨h'.1, fun t ht => h'.2 t (h.2 t ht)⟩) fun _ _ hx => by cases hx.1

theorem prepare_side {chain : List Deployment} : SideBySide up (self.prepare chain) (self.alone.prepare chain) := by
  show SideBySide up _ (.ret ())
  unfold prepare
  split
  · exact .ret ()
  · exact extra_side fun _ => createAll_down.bind
      (fun _ _ h => sync_down.mono fun _ _ h' => ⟨h'.1, fun t ht => h'.2 t (h.2 t ht)⟩) fun _ _ hx => by cases hx.1

/-! ### Whole answers -/

theorem backOff_side {retry : Nat} : SideBySide up (backOff retry) (backOff retry) := by
  unfold backOff
  split
  · exact call_side rfl
  · exact .ret ()

theorem injectFault_side {dep : Deployment} :
    SideBySide up (self.injectFault dep) (self.alone.injectFault dep) := by
  unfold injectFault
  show SideBySide up (ite (self.faults = true) _ _) (ite (self.faults = true) _ _)
  split
  · exact call_side rfl
  · exact .ret ()

theorem callProvider_side {dep : Deployment} {request : ChatRequest} :
    SideBySide up (self.callProvider dep request) (self.alone.callProvider dep request) := by
  refine (call_side rfl).bind fun answer => (call_side rfl).bind fun _ => ?_
  cases answer with
  | ok response => exact .ret response
  | error failure => exact .throw _

theorem callLoop_side {dep : Deployment} {request : ChatRequest} {left : Nat} :
    ∀ {retry : Nat} {attempts : List Attempt},
    SideBySide up (self.callLoop dep request left retry attempts) (self.alone.callLoop dep request left retry attempts) := by
  induction left with
  | zero => exact .ret _
  | succ left ih =>
    intro retry attempts
    refine backOff_side.bind fun _ => (caught_side (injectFault_side.bind fun _ => callProvider_side)).bind fun r => ?_
    have again : ∀ {new : ℚ → Attempt}, SideBySide up
        (do
          let latencyMs ← Prog.call Op.msSince
          self.noteFailure dep.name
          if (← breaker self.replica dep.name .state) = .closed then
            self.callLoop dep request left (retry + 1) (attempts ++ [new latencyMs])
          else return (none, attempts ++ [new latencyMs]))
        (do
          let latencyMs ← Prog.call Op.msSince
          self.alone.noteFailure dep.name
          if (← breaker self.replica dep.name .state) = .closed then
            self.alone.callLoop dep request left (retry + 1) (attempts ++ [new latencyMs])
          else return (none, attempts ++ [new latencyMs])) := by
      intro new
      refine (call_side rfl).bind fun t => noteFailure_side.bind fun _ => (call_side rfl).bind fun state => ?_
      show SideBySide up (ite _ _ _) (ite _ _ _)
      split
      · exact ih
      · exact .ret _
    cases r with
    | ok response =>
      exact (call_side rfl).bind fun t => noteSuccess_side.bind fun _ => .ret _
    | error e =>
      cases e with
      | providerError message retryable =>
        cases retryable with
        | true => exact again
        | false => exact succeeded_side.bind fun _ => (call_side rfl).bind fun t => .throw _
      | _ => exact again

theorem callWithRetries_side {dep : Deployment} {request : ChatRequest} {attempts : List Attempt} :
    SideBySide up (self.callWithRetries dep request attempts) (self.alone.callWithRetries dep request attempts) := by
  unfold callWithRetries
  rw [show self.alone.providers = self.providers from rfl]
  cases self.providers.lookup dep.provider with
  | none => exact .throw _
  | some adapter => exact callLoop_side

theorem completeFrom_side {request : ChatRequest} {chain : List Deployment} : ∀ {attempts : List Attempt},
    SideBySide up (self.completeFrom request chain attempts) (self.alone.completeFrom request chain attempts) := by
  induction chain with
  | nil => exact .throw _
  | cons dep chain ih =>
    intro attempts
    refine (call_side rfl).bind fun _ => (call_side rfl).bind fun allowed => ?_
    show SideBySide up (ite _ _ _) (ite _ _ _)
    split
    · refine callWithRetries_side.bind fun (o, attempts) => ?_
      cases o with
      | none => exact ih
      | some response => exact .ret _
    · exact ih

theorem complete_side {request : ChatRequest} {config : Option RoutingConfig} :
    SideBySide up (self.complete request config) (self.alone.complete request config) := by
  unfold complete
  rw [show self.alone.chainOf request config = self.chainOf request config from rfl]
  cases self.chainOf request config with
  | none => exact .throw _
  | some chain => exact prepare_side.bind fun _ => completeFrom_side

/-! ### Streams -/

theorem nextDelta_side {dep : Deployment} {iterator : Script} :
    SideBySide up (self.nextDelta dep iterator) (self.alone.nextDelta dep iterator) := by
  refine (call_side rfl).bind fun _ => ?_
  obtain ⟨deltas, failure⟩ := iterator
  cases deltas with
  | cons delta deltas => exact .ret _
  | nil =>
    cases failure with
    | none => exact .throw _
    | some failure => exact .throw _

theorem closeIterator_side {opened : Bool} : SideBySide up (closeIterator opened) (closeIterator opened) := by
  cases opened with
  | true => exact (caught_side (call_side rfl)).bind fun _ => .ret ()
  | false => exact .ret ()

theorem firstDelta_side {dep : Deployment} {request : ChatRequest} {adapter : Adapter} :
    SideBySide up (self.firstDelta dep request adapter) (self.alone.firstDelta dep request adapter) := by
  refine (caught_side injectFault_side).bind fun r => ?_
  cases r with
  | error e => exact .ret _
  | ok _ =>
    show SideBySide up (ite _ _ _) (ite _ _ _)
    split
    · refine (call_side rfl).bind fun iterator => (caught_side nextDelta_side).bind fun r => ?_
      cases r with
      | error e => exact .ret _
      | ok first => exact .ret _
    · refine (caught_side callProvider_side).bind fun r => ?_
      cases r with
      | error e => exact .ret _
      | ok response => exact .ret _

theorem openLoop_side {dep : Deployment} {request : ChatRequest} {adapter : Adapter} {left : Nat} :
    ∀ {retry : Nat} {attempts : List Attempt},
    SideBySide up (self.openLoop dep request adapter left retry attempts)
      (self.alone.openLoop dep request adapter left retry attempts) := by
  induction left with
  | zero => exact .ret _
  | succ left ih =>
    intro retry attempts
    refine backOff_side.bind fun _ => firstDelta_side.bind fun r => ?_
    have again : ∀ {new : ℚ → Attempt} {opened : Bool}, SideBySide up
        (do
          closeIterator opened
          let latencyMs ← Prog.call Op.msSince
          self.noteFailure dep.name
          if (← breaker self.replica dep.name .state) = .closed then
            self.openLoop dep request adapter left (retry + 1) (attempts ++ [new latencyMs])
          else return (none, attempts ++ [new latencyMs]))
        (do
          closeIterator opened
          let latencyMs ← Prog.call Op.msSince
          self.alone.noteFailure dep.name
          if (← breaker self.replica dep.name .state) = .closed then
            self.alone.openLoop dep request adapter left (retry + 1) (attempts ++ [new latencyMs])
          else return (none, attempts ++ [new latencyMs])) := by
      intro new opened
      refine closeIterator_side.bind fun _ => (call_side rfl).bind fun t => noteFailure_side.bind fun _ =>
        (call_side rfl).bind fun state => ?_
      show SideBySide up (ite _ _ _) (ite _ _ _)
      split
      · exact ih
      · exact .ret _
    cases r with
    | ok first => exact (call_side rfl).bind fun t => .ret _
    | error e =>
      obtain ⟨e, opened⟩ := e
      cases e with
      | providerError message retryable =>
        cases retryable with
        | true => exact again
        | false =>
          exact closeIterator_side.bind fun _ => succeeded_side.bind fun _ => (call_side rfl).bind fun t => .throw _
      | _ => exact again

theorem openWithRetries_side {dep : Deployment} {request : ChatRequest} {attempts : List Attempt} :
    SideBySide up (self.openWithRetries dep request attempts) (self.alone.openWithRetries dep request attempts) := by
  unfold openWithRetries
  rw [show self.alone.providers = self.providers from rfl]
  cases self.providers.lookup dep.provider with
  | none => exact .throw _
  | some adapter => exact openLoop_side

theorem openFrom_side {request : ChatRequest} {chain : List Deployment} : ∀ {attempts : List Attempt},
    SideBySide up (self.openFrom request chain attempts) (self.alone.openFrom request chain attempts) := by
  induction chain with
  | nil => exact .throw _
  | cons dep chain ih =>
    intro attempts
    refine (call_side rfl).bind fun _ => (call_side rfl).bind fun allowed => ?_
    show SideBySide up (ite _ _ _) (ite _ _ _)
    split
    · refine openWithRetries_side.bind fun (o, attempts) => ?_
      cases o with
      | none => exact ih
      | some opened => exact .ret _
    · exact ih

theorem openStream_side {request : ChatRequest} {config : Option RoutingConfig} :
    SideBySide up (self.openStream request config) (self.alone.openStream request config) := by
  unfold openStream
  rw [show self.alone.chainOf request config = self.chainOf request config from rfl]
  cases self.chainOf request config with
  | none => exact .throw _
  | some chain => exact prepare_side.bind fun _ => openFrom_side

theorem settleUp_side {opened : OpenStream} {text : String} :
    SideBySide up (self.settleUp opened text) (self.alone.settleUp opened text) := by
  unfold settleUp
  split
  · exact .ret _
  · exact (call_side rfl).bind fun _ => .ret _

theorem leave_side {α : Type} {opened : OpenStream} {text : String} {r : Except Exn α} :
    SideBySide up (self.leave opened text r) (self.alone.leave opened text r) := by
  refine settleUp_side.bind fun opened => closeIterator_side.attempt.bind fun o => ?_
  cases o with
  | ok _ => exact .ret _
  | error e => exact .ret _

theorem relayEnd_side {failure : Option Failure} {delivered : List String} {opened : OpenStream} :
    SideBySide up (self.relayEnd failure delivered opened) (self.alone.relayEnd failure delivered opened) := by
  cases failure with
  | none =>
    refine noteSuccess_side.attempt.bind fun o => ?_
    cases o with
    | ok _ => exact leave_side
    | error e => exact leave_side
  | some failure =>
    refine settleUp_side.bind fun opened => noteFailure_side.attempt.bind fun o => ?_
    cases o with
    | ok _ => exact leave_side
    | error e => exact leave_side

theorem relayLoop_side {failure : Option Failure} {deltas : List StreamDelta} :
    ∀ {delivered : List String} {words : Nat} {opened : OpenStream},
    SideBySide up (self.relayLoop failure deltas delivered words opened)
      (self.alone.relayLoop failure deltas delivered words opened) := by
  induction deltas with
  | nil =>
    intro delivered words opened
    refine (call_side rfl).attempt.bind fun o => ?_
    cases o with
    | error e => exact leave_side
    | ok _ => exact relayEnd_side
  | cons delta deltas ih =>
    intro delivered words opened
    refine (call_side rfl).attempt.bind fun o => ?_
    cases o with
    | error e => exact leave_side
    | ok _ =>
      show SideBySide up (ite _ _ _) (ite _ _ _)
      split
      · exact ih
      · exact .ret _

theorem relayNext_side {opened : OpenStream} :
    SideBySide up (self.relayNext opened) (self.alone.relayNext opened) := by
  unfold relayNext
  cases opened.rest with
  | notStarted iterator => exact relayLoop_side
  | suspended iterator delivered words => exact relayLoop_side
  | finished => exact .ret _

theorem relayClose_side {opened : OpenStream} :
    SideBySide up (self.relayClose opened) (self.alone.relayClose opened) := by
  unfold relayClose
  cases opened.rest with
  | notStarted iterator => exact .ret _
  | suspended iterator delivered words => exact leave_side
  | finished => exact .ret _

/-! ### Sessions -/

theorem act_side {streams : List OpenStream} {action : Action} :
    SideBySide up (self.act streams action) (self.alone.act streams action) := by
  cases action with
  | complete request config => exact complete_side.attempt.bind fun _ => .ret _
  | openStream request config =>
    refine openStream_side.attempt.bind fun r => ?_
    cases r with
    | ok opened => exact .ret _
    | error e => exact .ret _
  | next i =>
    simp only [act]
    cases streams[i]? with
    | none => exact .ret _
    | some opened => exact relayNext_side.bind fun _ => .ret _
  | close i =>
    simp only [act]
    cases streams[i]? with
    | none => exact .ret _
    | some opened => exact relayClose_side.bind fun _ => .ret _

theorem session_side {actions : List Action} : ∀ {streams : List OpenStream},
    SideBySide up (self.session actions streams) (self.alone.session actions streams) := by
  induction actions with
  | nil => exact .ret _
  | cons action actions ih =>
    intro streams
    exact act_side.bind fun _ => ih.bind fun _ => .ret _

/-- With Redis out of reach, a router that shares its breakers serves every session as it would without sharing
    them: the results, the streams with their attempts and the breakers of every replica are the same, but that it
    may have made further breakers, which are closed and have counted nothing. -/
theorem unreachable_redis_makes_ahead (actions : List Action) (reachable : Bool) {s : Scene} {threshold : Int}
    {cooldown : ℚ} {positive : 1 ≤ threshold} (hs : s.MadeBy (.new threshold cooldown positive)) :
    let shared := (self.session actions []).run (answer false) s
    let alone := (self.alone.session actions []).run (answer reachable) s
    shared.1 = alone.1 ∧ ∀ replica name,
      shared.2.breaker? replica name = alone.2.breaker? replica name ∨
      (alone.2.breaker? replica name = none ∧
        shared.2.breaker? replica name = some (.new threshold cooldown positive)) := by
  intro shared alone
  obtain ⟨hr, hm⟩ := @session_side self reachable actions [] s s (.refl s)
  refine ⟨hr, fun replica name => ?_⟩
  have hsame : shared.2.breakers replica name = alone.2.breakers replica name := by rw [hm.breakers]
  by_cases hmade : name ∈ alone.2.known replica
  · left
    rw [State.breaker?, State.breaker?, if_pos hmade, if_pos (hm.known replica hmade), hsame]
  · by_cases hahead : name ∈ shared.2.known replica
    · have hunmade : name ∉ s.known replica := fun h => hmade (run_known h)
      have hspared : alone.2.breakers replica name = s.breakers replica name :=
        (session_madeFirst rfl fun _ h => by cases h).run (hs.untouched replica name hunmade) hmade
      right
      rw [State.breaker?, State.breaker?, if_neg hmade, if_pos hahead, hsame, hspared, hs.unmade replica name hunmade]
      exact ⟨rfl, rfl⟩
    · left
      rw [State.breaker?, State.breaker?, if_neg hmade, if_neg hahead]

/-! ### A candidate whose first deployment answers -/

/-- In every session without Redis, sharing the breakers makes no difference at all. -/
def SharingChangesNothing (self : LLMRouter) : Prop :=
  ∀ (actions : List Action) (reachable : Bool) (s : Scene),
    let shared := (self.session actions []).run (answer false) s
    let alone := (self.alone.session actions []).run (answer reachable) s
    shared.1 = alone.1 ∧ ∀ replica name, shared.2.breaker? replica name = alone.2.breaker? replica name

namespace Candidate
open Fallback (router request hello breaker threshold_positive)

def sharing : LLMRouter := { router with cluster := some { failureThreshold := 3, cooldownSeconds := 30 } }

/-- Two deployments that the start-up table does not have. -/
def table : RoutingConfig where
  routes := AList.singleton "default" [{ name := "canary-primary", provider := "fake", model := "fake/new" },
    { name := "canary-secondary", provider := "fake", model := "fake/secondary" }]
  nonempty := by simp
  named := by simp [Routes.all]

/-- The breakers of the start-up table have been made, and every call answers. -/
def scene : Scene where
  breakers := fun _ _ => breaker
  known := fun _ => ["primary", "secondary"]
  ticks := fun _ => 0
  monotonic := fun _ => 0
  answers := fun _ => { whole := .ok hello, script := ⟨[{ content := "hello back" }], none⟩ }

/-- Two requests, one to each table. -/
def actions : List Action := [.complete request none, .complete request (some table)]

theorem alone_unmade :
    ((sharing.alone.session actions []).run (answer true) scene).2.breaker? 0 "canary-secondary" = none := by
  decide +kernel

theorem shared_made :
    (((sharing.session actions []).run (answer false) scene).2.breaker? 0 "canary-secondary").isSome = true := by
  decide +kernel

/-- The router that shares its breakers lists one more. -/
theorem not_sharingChangesNothing : ¬SharingChangesNothing sharing := by
  intro h
  have hmade := shared_made
  rw [(h actions true scene).2 0 "canary-secondary", alone_unmade] at hmade
  cases hmade

theorem scene_madeBy : scene.MadeBy (.new 3 30 threshold_positive) where
  unmade _ _ _ := rfl
  untouched _ _ _ _ _ := rfl

/-- The breaker that is made ahead is a fresh one. -/
theorem made_ahead :
    ((sharing.session actions []).run (answer false) scene).1 =
      ((sharing.alone.session actions []).run (answer true) scene).1 ∧
    ((sharing.session actions []).run (answer false) scene).2.breaker? 0 "canary-secondary" =
      some (.new 3 30 threshold_positive) := by
  obtain ⟨hr, hb⟩ := @unreachable_redis_makes_ahead sharing actions true _ _ _ _ scene_madeBy
  rcases hb 0 "canary-secondary" with hsame | ⟨-, hnew⟩
  · have hmade := shared_made
    rw [hsame, alone_unmade] at hmade
    cases hmade
  · exact ⟨hr, hnew⟩

end Candidate
end NexusGate.Gateway.LLMRouter
