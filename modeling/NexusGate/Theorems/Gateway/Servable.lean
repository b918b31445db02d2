import NexusGate.Gateway.Occasion
import NexusGate.Theorems.Gateway.Rollout
import NexusGate.Theorems.Gateway.Streams
import NexusGate.Theorems.Gateway.Unreachable

/-! # Tables that can be served

Which tables serve every one of their aliases without an `UnknownModelError`, whatever the breakers, Redis, the
providers and other requests do. -/

namespace NexusGate.Gateway.Router
open Async Redis

/-- An `UnknownModelError`. -/
def Exn.unknown : Exn → Bool
  | .unknownModel _ => true
  | _ => false

/-- Every answer may come, but an `UnknownModelError` is the router's own. -/
def foreign : Monitor Op Op.Reply Exn Unit where
  may _ _ := True
  next _ _ r _ := ∀ x, r = .error x → x.unknown = false

/-- `p` returns something that `Q` holds of, or raises something else than an `UnknownModelError`. -/
def Sane {α : Type} (Q : α → Prop) (p : Program α) : Prop :=
  Follows foreign (fun r _ => match r with
    | .ok a => Q a
    | .error x => x.unknown = false) p ()

namespace Sane
variable {α β : Type} {Q : α → Prop} {p : Program α}

theorem ret {a : α} (h : Q a) : Sane Q (.ret a) := h

theorem throw {x : Exn} (h : x.unknown = false) : Sane Q (.throw x) := h

theorem call {e : Op} : Sane (fun _ => True) (.call e : Program (Op.Reply e)) := by
  refine Follows.call_iff.mpr ⟨trivial, fun r _ hr => ?_⟩
  cases r with
  | ok a => trivial
  | error x => exact hr x rfl

theorem bind {Q' : β → Prop} {f : α → Program β} (hp : Sane Q p) (hf : ∀ a, Q a → Sane Q' (f a)) : Sane Q' (p.bind f) :=
  Follows.bind hp (fun a _ ha => hf a ha) fun _ _ hx => hx

theorem attempt (hp : Sane Q p) : Sane (fun r : Except Exn α => match r with
    | .ok a => Q a
    | .error x => x.unknown = false) p.attempt :=
  Follows.attempt_iff.mpr hp

theorem caught (hp : Sane Q p) : Sane (fun r : Except Exn α => match r with
    | .ok a => Q a
    | .error x => x.unknown = false) (caught p) := by
  refine hp.attempt.bind fun r hr => ?_
  cases r with
  | ok a => exact .ret hr
  | error x =>
    show Sane _ (ite _ _ _)
    split
    · exact .ret hr
    · exact .throw hr

theorem ofExcept {r : Except Exn α} (h : match r with
    | .ok a => Q a
    | .error x => x.unknown = false) : Sane Q (.ofExcept r) :=
  Follows.ofExcept_iff.mpr h

end Sane

theorem unknown_exn (f : Failure) : f.exn.unknown = false := by cases f <;> rfl

section
variable {cluster : ClusterBreakers} {replica : Nat} {name : String}

theorem pipeline_sane : ∀ {cs : List (Cmd Int)}, Sane (fun _ => True) (pipeline cs)
  | [] => .ret trivial
  | c :: cs => by
    refine Sane.call.attempt.bind fun first hfirst => pipeline_sane.attempt.bind fun others hothers => ?_
    refine (Sane.ofExcept (Q := fun _ => True) ?_).bind fun _ _ => (Sane.ofExcept (Q := fun _ => True) ?_).bind fun _ _ =>
      .ret trivial
    · exact hfirst
    · exact hothers

theorem publishOpen_sane : Sane (fun _ => True) (cluster.publishOpen name) :=
  pipeline_sane.caught.bind fun _ _ => .ret trivial

theorem recordFailure_sane : Sane (fun _ => True) (cluster.recordFailure replica name) := by
  refine Sane.call.bind fun opened _ => ?_
  cases opened with
  | true => exact publishOpen_sane.bind fun _ _ => .ret trivial
  | false =>
    refine pipeline_sane.caught.bind fun r _ => ?_
    split
    · show Sane _ (ite _ _ _)
      split
      · exact publishOpen_sane.bind fun _ _ => Sane.call.bind fun _ _ => .ret trivial
      · exact .ret trivial
    · exact .ret trivial

theorem recordSuccess_sane : Sane (fun _ => True) (cluster.recordSuccess replica name) :=
  Sane.call.bind fun _ _ => Sane.call.caught.bind fun _ _ => .ret trivial

theorem claimProbe_sane : Sane (fun _ => True) (cluster.claimProbe replica name) := by
  have claimed : ∀ won : Bool, Sane (fun _ => True)
      (if won then breaker replica name (.adopt .halfOpen 0) else return) := fun won => by
    split
    · exact .call
    · exact .ret trivial
  exact Sane.call.caught.bind fun r _ => claimed _

theorem agreeOn_sane {openFlag fails : Redis.Reply Int} : Sane (fun _ => True) (cluster.agreeOn replica name openFlag fails) := by
  refine Sane.call.bind fun known _ => ?_
  show Sane _ (ite _ _ _)
  split
  · split
    · exact Sane.call.bind fun _ _ => .call
    · refine Sane.call.bind fun state _ => ?_
      show Sane _ (ite _ _ _)
      split
      · exact claimProbe_sane
      · split
        · exact Sane.call.bind fun _ _ => .call
        · exact .ret trivial
  · exact .ret trivial

theorem agree_sane : ∀ {names : List String} {results : List (Redis.Reply Int)},
    Sane (fun _ => True) (cluster.agree replica names results) := by
  intro names results
  fun_induction cluster.agree replica names results with
  | case1 name names openFlag fails results ih => exact agreeOn_sane.bind fun _ _ => ih
  | case2 => exact .ret trivial

theorem sync_sane {names : List String} : Sane (fun _ => True) (cluster.sync replica names) := by
  refine Sane.call.bind fun now _ => Sane.call.bind fun syncedAt _ => ?_
  show Sane _ (ite _ _ _)
  split
  · exact .ret trivial
  · refine Sane.call.bind fun _ _ => pipeline_sane.caught.bind fun r _ => ?_
    cases r with
    | error x => exact .ret trivial
    | ok results => exact agree_sane

end
end NexusGate.Gateway.Router

namespace NexusGate.Gateway.LLMRouter
open Async Redis Router
variable {self : LLMRouter} {request : ChatRequest} {dep : Deployment}

/-! ### The parts of a request -/

theorem createAll_sane : ∀ {names : List String}, Sane (fun _ => True) (self.createAll names)
  | [] => .ret trivial
  | _ :: _ => Sane.call.bind fun _ _ => createAll_sane

theorem prepare_sane {chain : List Deployment} : Sane (fun _ => True) (self.prepare chain) := by
  unfold prepare
  split
  · exact .ret trivial
  · exact createAll_sane.bind fun _ _ => sync_sane

theorem succeeded_sane {name : String} : Sane (fun _ => True) (self.succeeded name) := by
  unfold succeeded
  split
  · exact recordSuccess_sane
  · exact .call

theorem noteFailure_sane {name : String} : Sane (fun _ => True) (self.noteFailure name) := by
  have hfailed : Sane (fun _ => True) (self.failed name) := by
    unfold failed
    split
    · exact recordFailure_sane
    · exact .call
  refine hfailed.bind fun opened _ => ?_
  show Sane _ (ite _ _ _)
  split
  · exact .call
  · exact .ret trivial

theorem noteSuccess_sane {name : String} : Sane (fun _ => True) (self.noteSuccess name) :=
  succeeded_sane.bind fun _ _ => .call

theorem backOff_sane {retry : Nat} : Sane (fun _ => True) (backOff retry) := by
  unfold backOff
  split
  · exact .call
  · exact .ret trivial

theorem injectFault_sane : Sane (fun _ => True) (self.injectFault dep) := by
  unfold injectFault
  split
  · exact .call
  · exact .ret trivial

theorem callProvider_sane : Sane (fun _ => True) (self.callProvider dep request) := by
  refine Sane.call.bind fun answer _ => Sane.call.bind fun _ _ => ?_
  cases answer with
  | ok response => exact .ret trivial
  | error failure => exact .throw (unknown_exn failure)

/-- What follows a failed call. -/
theorem retry_sane {α : Type} {again : List Attempt → Program (Option α × List Attempt)} {attempts : List Attempt}
    {new : ℚ → Attempt} (ih : ∀ attempts, Sane (fun _ => True) (again attempts)) : Sane (fun _ => True) (do
      let latencyMs ← Prog.call Op.msSince
      self.noteFailure dep.name
      if (← breaker self.replica dep.name .state) = .closed then again (attempts ++ [new latencyMs])
      else return (none, attempts ++ [new latencyMs])) := by
  refine Sane.call.bind fun t _ => noteFailure_sane.bind fun _ _ => Sane.call.bind fun state _ => ?_
  show Sane _ (ite _ _ _)
  split
  · exact ih _
  · exact .ret trivial

theorem callLoop_sane {left : Nat} : ∀ {retry : Nat} {attempts : List Attempt},
    Sane (fun _ => True) (self.callLoop dep request left retry attempts) := by
  induction left with
  | zero => exact .ret trivial
  | succ left ih =>
    intro retry attempts
    refine backOff_sane.bind fun _ _ => (injectFault_sane.bind fun _ _ => callProvider_sane).caught.bind fun r _ => ?_
    cases r with
    | ok response => exact Sane.call.bind fun t _ => noteSuccess_sane.bind fun _ _ => .ret trivial
    | error e =>
      cases e with
      | providerError message retryable =>
        cases retryable with
        | true => exact retry_sane fun _ => ih
        | false => exact succeeded_sane.bind fun _ _ => Sane.call.bind fun t _ => .throw rfl
      | _ => exact retry_sane fun _ => ih

theorem nextDelta_sane {iterator : Script} : Sane (fun _ => True) (self.nextDelta dep iterator) := by
  obtain ⟨deltas, failure⟩ := iterator
  refine Sane.call.bind fun _ _ => ?_
  cases deltas with
  | cons delta deltas => exact .ret trivial
  | nil =>
    cases failure with
    | none => exact .throw rfl
    | some failure => exact .throw (unknown_exn failure)

theorem closeIterator_sane {opened : Bool} : Sane (fun _ => True) (closeIterator opened) := by
  cases opened with
  | true => exact Sane.call.caught.bind fun _ _ => .ret trivial
  | false => exact .ret trivial

theorem firstDelta_sane {adapter : Adapter} : Sane (fun _ => True) (self.firstDelta dep request adapter) := by
  refine injectFault_sane.caught.bind fun r _ => ?_
  cases r with
  | error e => exact .ret trivial
  | ok _ =>
    show Sane _ (ite _ _ _)
    split
    · refine Sane.call.bind fun iterator _ => nextDelta_sane.caught.bind fun r _ => ?_
      cases r <;> exact .ret trivial
    · refine callProvider_sane.caught.bind fun r _ => ?_
      cases r <;> exact .ret trivial

theorem openLoop_sane {adapter : Adapter} {left : Nat} : ∀ {retry : Nat} {attempts : List Attempt},
    Sane (fun _ => True) (self.openLoop dep request adapter left retry attempts) := by
  induction left with
  | zero => exact .ret trivial
  | succ left ih =>
    intro retry attempts
    refine backOff_sane.bind fun _ _ => firstDelta_sane.bind fun r _ => ?_
    cases r with
    | ok first => exact Sane.call.bind fun t _ => .ret trivial
    | error e =>
      obtain ⟨e, opened⟩ := e
      cases e with
      | providerError message retryable =>
        cases retryable with
        | true => exact closeIterator_sane.bind fun _ _ => retry_sane fun _ => ih
        | false =>
          exact closeIterator_sane.bind fun _ _ => succeeded_sane.bind fun _ _ => Sane.call.bind fun t _ => .throw rfl
      | _ => exact closeIterator_sane.bind fun _ _ => retry_sane fun _ => ih

/-! ### Relaying -/

/-- What the generator of a stream hands over is no `UnknownModelError`. -/
def Handed {α : Type} (out : Except Exn α × OpenStream) : Prop := ∀ x, out.1 = .error x → x.unknown = false

theorem settleUp_sane {opened : OpenStream} {text : String} : Sane (fun _ => True) (self.settleUp opened text) := by
  unfold settleUp
  split
  · exact .ret trivial
  · exact Sane.call.bind fun _ _ => .ret trivial

theorem leave_sane {α : Type} {opened : OpenStream} {text : String} {r : Except Exn α}
    (hr : ∀ x, r = .error x → x.unknown = false) : Sane Handed (self.leave opened text r) := by
  refine settleUp_sane.bind fun opened _ => closeIterator_sane.attempt.bind fun o ho => ?_
  cases o with
  | ok _ => exact .ret hr
  | error e =>
    refine .ret fun x hx => ?_
    cases hx
    exact ho

/-- An exception of the generator that is kept for later. -/
theorem raises_kept {β : Type} {x : Exn} (h : x.unknown = false) :
    ∀ y, (Except.error x : Except Exn β) = .error y → y.unknown = false := by
  intro y hy
  cases hy
  exact h

theorem relayEnd_sane {failure : Option Failure} {delivered : List String} {opened : OpenStream} :
    Sane Handed (self.relayEnd failure delivered opened) := by
  cases failure with
  | none =>
    refine noteSuccess_sane.attempt.bind fun o ho => ?_
    cases o with
    | ok _ => exact leave_sane fun x hx => by cases hx
    | error e => exact leave_sane (raises_kept ho)
  | some failure =>
    refine settleUp_sane.bind fun opened _ => noteFailure_sane.attempt.bind fun o ho => ?_
    cases o with
    | ok _ =>
      refine leave_sane fun x hx => ?_
      cases hx
      rfl
    | error e => exact leave_sane (raises_kept ho)

theorem relayLoop_sane {failure : Option Failure} {deltas : List StreamDelta} :
    ∀ {delivered : List String} {words : Nat} {opened : OpenStream},
    Sane Handed (self.relayLoop failure deltas delivered words opened) := by
  induction deltas with
  | nil =>
    intro delivered words opened
    refine Sane.call.attempt.bind fun o ho => ?_
    cases o with
    | error e => exact leave_sane (raises_kept ho)
    | ok _ => exact relayEnd_sane
  | cons delta deltas ih =>
    intro delivered words opened
    refine Sane.call.attempt.bind fun o ho => ?_
    cases o with
    | error e => exact leave_sane (raises_kept ho)
    | ok _ =>
      show Sane _ (ite _ _ _)
      split
      · exact ih
      · exact .ret fun x hx => by cases hx

theorem relayNext_sane {opened : OpenStream} : Sane Handed (self.relayNext opened) := by
  unfold relayNext
  split
  · exact relayLoop_sane
  · exact relayLoop_sane
  · exact .ret fun x hx => by cases hx

theorem relayClose_sane {opened : OpenStream} : Sane Handed (self.relayClose opened) := by
  unfold relayClose
  split
  · exact .ret fun x hx => by cases hx
  · exact leave_sane fun x hx => by cases hx
  · exact .ret fun x hx => by cases hx

theorem consume_sane {chunks : Nat} : ∀ {opened : OpenStream}, Sane (fun _ => True) (self.consume chunks opened) := by
  induction chunks with
  | zero =>
    intro opened
    refine Sane.call.bind fun _ _ => relayClose_sane.bind fun (r, opened) hr => ?_
    cases r with
    | ok _ => exact .ret trivial
    | error e => exact .throw (hr e rfl)
  | succ chunks ih =>
    intro opened
    refine relayNext_sane.bind fun (r, opened) hr => ?_
    match r, hr with
    | .ok (some _), _ => exact ih
    | .ok none, _ => exact .ret trivial
    | .error e, hr => exact .throw (hr e rfl)

/-! ### Which tables can be served -/

/-- No request for an alias of the table, whole or streamed, fails with an `UnknownModelError`. -/
def Servable (self : LLMRouter) (table : RoutingConfig) : Prop :=
  ∀ request : ChatRequest, (table.routes.lookup request.model).isSome = true →
    Sane (fun _ => True) (self.complete request (some table)) ∧
      ∀ chunks, Sane (fun _ => True) (self.streamed request (some table) chunks)

/-- Every deployment of the table names an adapter that is registered. -/
def Registered (self : LLMRouter) (table : RoutingConfig) : Prop :=
  ∀ dep ∈ table.routes.all, (self.providers.lookup dep.provider).isSome = true

theorem callWithRetries_sane (h : (self.providers.lookup dep.provider).isSome = true) {attempts : List Attempt} :
    Sane (fun _ => True) (self.callWithRetries dep request attempts) := by
  obtain ⟨adapter, ha⟩ := Option.isSome_iff_exists.mp h
  unfold callWithRetries
  rw [ha]
  exact callLoop_sane

theorem openWithRetries_sane (h : (self.providers.lookup dep.provider).isSome = true) {attempts : List Attempt} :
    Sane (fun _ => True) (self.openWithRetries dep request attempts) := by
  obtain ⟨adapter, ha⟩ := Option.isSome_iff_exists.mp h
  unfold openWithRetries
  rw [ha]
  exact openLoop_sane

theorem completeFrom_sane {chain : List Deployment} : ∀ {attempts : List Attempt},
    (∀ dep ∈ chain, (self.providers.lookup dep.provider).isSome = true) →
    Sane (fun _ => True) (self.completeFrom request chain attempts) := by
  induction chain with
  | nil => exact fun _ => .throw rfl
  | cons dep chain ih =>
    intro attempts h
    obtain ⟨hdep, hchain⟩ := List.forall_mem_cons.mp h
    refine Sane.call.bind fun _ _ => Sane.call.bind fun allowed _ => ?_
    show Sane _ (ite _ _ _)
    split
    · refine (callWithRetries_sane hdep).bind fun (o, attempts) _ => ?_
      cases o with
      | none => exact ih hchain
      | some response => exact .ret trivial
    · exact ih hchain

theorem openFrom_sane {chain : List Deployment} : ∀ {attempts : List Attempt},
    (∀ dep ∈ chain, (self.providers.lookup dep.provider).isSome = true) →
    Sane (fun _ => True) (self.openFrom request chain attempts) := by
  induction chain with
  | nil => exact fun _ => .throw rfl
  | cons dep chain ih =>
    intro attempts h
    obtain ⟨hdep, hchain⟩ := List.forall_mem_cons.mp h
    refine Sane.call.bind fun _ _ => Sane.call.bind fun allowed _ => ?_
    show Sane _ (ite _ _ _)
    split
    · refine (openWithRetries_sane hdep).bind fun (o, attempts) _ => ?_
      cases o with
      | none => exact ih hchain
      | some opened => exact .ret trivial
    · exact ih hchain

/-- The chain of an alias is part of the table. -/
theorem mem_all {routes : Routes} {model : String} {chain : List Deployment} (h : routes.lookup model = some chain)
    (hd : dep ∈ chain) : dep ∈ routes.all :=
  List.mem_flatMap.mpr ⟨⟨model, chain⟩, AList.mem_lookup_iff.mp h, hd⟩

theorem servable_of_registered {table : RoutingConfig} (h : self.Registered table) : self.Servable table := by
  intro request hmodel
  obtain ⟨chain, hchain⟩ := Option.isSome_iff_exists.mp hmodel
  have hdeps : ∀ dep ∈ chain, (self.providers.lookup dep.provider).isSome = true := fun dep hd =>
    h dep (mem_all hchain hd)
  have hof : self.chainOf request (some table) = some chain := hchain
  have hopen : Sane (fun _ => True) (self.openStream request (some table)) := by
    unfold openStream
    rw [hof]
    exact prepare_sane.bind fun _ _ => openFrom_sane hdeps
  refine ⟨?_, fun chunks => hopen.bind fun _ _ => consume_sane⟩
  unfold complete
  rw [hof]
  exact prepare_sane.bind fun _ _ => completeFrom_sane hdeps

/-! ### A chain whose walk comes to one deployment -/

/-- Only the circuit of `name` is closed, and no cooldown ends. -/
structure OnlyOpenFor (replica : Nat) (name : String) (s : Scene) : Prop where
  ticks : s.ticks = fun _ => 0
  others : s.others = fun _ => id
  closed : (s.breakers replica name).state = .closed
  opened : ∀ other, other ≠ name → (s.breakers replica other).state = .opened ∧
    (s.breakers replica other).openedAt = 0 ∧ 0 < (s.breakers replica other).cooldownSeconds

theorem OnlyOpenFor.allows {replica : Nat} {name : String} {s : Scene} (h : OnlyOpenFor replica name s) :
    (s.ask replica name .allowRequest).1 = true := by
  unfold Scene.ask
  rw [h.others]
  show ((s.breakers replica name).allowRequest _).1 = true
  unfold CircuitBreaker.allowRequest CircuitBreaker.refresh CircuitBreaker.due
  simp [h.closed]

theorem OnlyOpenFor.skips {replica : Nat} {name other : String} {s : Scene} (h : OnlyOpenFor replica name s)
    (ho : other ≠ name) : (s.ask replica other .allowRequest).1 = false ∧
      OnlyOpenFor replica name (s.ask replica other .allowRequest).2 := by
  obtain ⟨hs, ht, hc⟩ := h.opened other ho
  have hask : (s.breakers replica other).call s.ticks.head s.ticks.tail.head .allowRequest =
      (false, s.breakers replica other) := by
    rw [h.ticks]
    show (s.breakers replica other).allowRequest 0 = _
    have hrefresh : (s.breakers replica other).refresh 0 = s.breakers replica other := by
      unfold CircuitBreaker.refresh CircuitBreaker.due
      rw [if_neg]
      intro hd
      have hd := (of_decide_eq_true hd).2
      rw [ht, sub_zero] at hd
      exact absurd hc (not_lt.mpr hd)
    unfold CircuitBreaker.allowRequest
    dsimp only
    rw [hrefresh, hs]
  have hothers : s.others.head s.breakers = s.breakers := by
    rw [h.others]
    rfl
  have hsame : (s.ask replica other .allowRequest).2.breakers = s.breakers := by
    simp only [Scene.ask, hothers, hask, State.setBreaker]
    rw [Function.update_eq_self, Function.update_eq_self]
  refine ⟨by simp only [Scene.ask, hothers, hask], ?_, ?_, ?_, ?_⟩
  · show s.ticks.tail.tail = _
    rw [h.ticks]
    rfl
  · show s.others.tail = _
    rw [h.others]
    rfl
  · rw [hsame]
    exact h.closed
  · rw [hsame]
    exact h.opened

theorem OnlyOpenFor.create {replica : Nat} {name other : String} {s : Scene} (h : OnlyOpenFor replica name s) :
    OnlyOpenFor replica name (s.create replica other) := by
  have hb : (s.create replica other).breakers = s.breakers := Scene.breakers_create
  exact ⟨h.ticks, h.others, by rw [hb]; exact h.closed, by rw [hb]; exact h.opened⟩

/-- The walk comes to the first deployment without an adapter, where the circuits before it are open. -/
theorem walk_noAdapter {α : Type} {replica : Nat} {rec : Recording} {faults : Bool}
    {outcome : Deployment → Answer → Except Failure α} {adapters : String → Bool} (hd : adapters dep.provider = false)
    {after : List Deployment} : ∀ {before : List Deployment} {s : Scene}, (∀ d ∈ before, d.name ≠ dep.name) →
    OnlyOpenFor replica dep.name s →
    (walk replica rec faults outcome adapters (before ++ dep :: after) s).2.1 = .noAdapter dep
  | [], s, _, h => by
    have hallow := (@OnlyOpenFor.create replica dep.name dep.name s h).allows
    rw [List.nil_append, walk]
    generalize (s.create replica dep.name).ask replica dep.name .allowRequest = o at hallow
    obtain ⟨allowed, s'⟩ := o
    cases hallow
    simp only [hd]
    rfl
  | d :: before, s, hbefore, h => by
    obtain ⟨hne, hbefore⟩ := List.forall_mem_cons.mp hbefore
    obtain ⟨hskip, h'⟩ := (@OnlyOpenFor.create replica dep.name d.name s h).skips hne
    rw [List.cons_append, walk]
    generalize (s.create replica d.name).ask replica d.name .allowRequest = o at hskip h'
    obtain ⟨allowed, s'⟩ := o
    cases hskip
    exact walk_noAdapter hd hbefore h'

/-- A closed circuit for `name`, and open ones for every other deployment. -/
def onlyOpenFor (name : String) : Scene where
  breakers := fun _ other => { failureThreshold := 1, cooldownSeconds := 1, positive := Int.one_pos
                               state := if other = name then .closed else .opened }
  ticks := fun _ => 0
  monotonic := fun _ => 0
  answers := fun _ => { whole := .error .timeout, script := ⟨[], none⟩ }

theorem onlyOpenFor_spec {replica : Nat} {name : String} : OnlyOpenFor replica name (onlyOpenFor name) where
  ticks := rfl
  others := rfl
  closed := if_pos rfl
  opened _ ho := ⟨if_neg ho, rfl, zero_lt_one⟩

theorem answer_foreign {up : Bool} (e : Op) (s : Scene) : ∀ x, (answer up e s).1 = .error x → x.unknown = false := by
  intro x hx
  cases e with
  | redis c =>
    cases up with
    | true =>
      have hx : (s.redis c).1 = .error x := hx
      unfold Scene.redis State.redis at hx
      revert hx
      generalize Redis.exec s.time c (s.remote.head s.store) = o
      obtain ⟨reply, store⟩ := o
      intro hx
      cases reply <;> first | (cases hx; done) | (cases hx; rfl)
    | false =>
      cases hx
      rfl
  | fault deployment =>
    simp only [answer] at hx
    split at hx
    · cases hx
      rfl
    · cases hx
  | _ => cases hx

/-- What is sane comes to no `UnknownModelError`. -/
theorem Sane.run {α : Type} {up : Bool} {Q : α → Prop} {p : Program α} (h : Sane Q p) (s : Scene) :
    ∀ x, (p.run (answer up) s).1 = .error x → x.unknown = false := by
  intro x hx
  have hends := Follows.ends (M := foreign) (h := answer up) answer_foreign h s
  unfold Ends at hends
  rw [hx] at hends
  exact hends

theorem registered_of_servable {table : RoutingConfig} (h : self.Servable table) : self.Registered table := by
  intro d hd
  by_contra hno
  obtain ⟨⟨model, chain⟩, hentry, hmem⟩ := List.mem_flatMap.mp hd
  have hlookup : table.routes.lookup model = some chain := AList.mem_lookup_iff.mpr hentry
  -- The first deployment of the chain that has no adapter.
  have hfind : (chain.find? fun d => !self.hasAdapter d.provider).isSome = true :=
    List.find?_isSome.mpr ⟨d, hmem, by simpa [hasAdapter] using hno⟩
  obtain ⟨dep, hdep⟩ := Option.isSome_iff_exists.mp hfind
  obtain ⟨hmissing, before, after, rfl, hbefore⟩ := List.find?_eq_some_iff_append.mp hdep
  have hmissing : self.hasAdapter dep.provider = false := by simpa using hmissing
  have hnames : ∀ d ∈ before, d.name ≠ dep.name := by
    intro d hd hname
    have hsame : d = dep := table.named d (mem_all hlookup (List.mem_append_left _ hd)) dep
      (mem_all hlookup (List.mem_append_right _ List.mem_cons_self)) hname
    have had := hbefore d hd
    rw [hsame, hmissing] at had
    cases had
  let request : ChatRequest := { model, messages := [⟨.user, "hi"⟩], nonempty := List.cons_ne_nil _ _ }
  have hchain : self.alone.chainOf request (some table) = some (before ++ dep :: after) := hlookup
  have hsane := (h request (by rw [hlookup]; rfl)).1
  have hrun := (@complete_side self false request (some table) _ _ (.refl (onlyOpenFor dep.name))).1
  obtain ⟨-, new, -, hr⟩ := @complete_walks self.alone rfl request (some table) _ hchain false (onlyOpenFor dep.name)
  have hwalk : (walk self.alone.replica (.onBreaker self.alone.replica) self.alone.faults wholeAnswer
      self.alone.hasAdapter (before ++ dep :: after) (onlyOpenFor dep.name)).2.1 = .noAdapter dep :=
    walk_noAdapter hmissing hnames onlyOpenFor_spec
  rw [hwalk] at hr
  have hunknown := Sane.run hsane (onlyOpenFor dep.name) _ (hrun.trans hr)
  cases hunknown

/-- A table that `publish` accepts can be served if and only if all its adapters are registered. -/
theorem accepted_servable_iff {manager : Rollout.RolloutManager} {text : String} {weight : Int} {note : Option String}
    {o : Rollout.Occasion} {a : Rollout.Alone}
    (haccepts : ((manager.publish text weight note).run (o.answer manager.replica) a).1 ≠ .error .valueError) :
    ∃ table, manager.format.fromText text = some table ∧ (self.Servable table ↔ self.Registered table) := by
  cases htext : manager.format.fromText text with
  | some table => exact ⟨table, rfl, registered_of_servable, servable_of_registered⟩
  | none =>
    refine absurd ?_ haccepts
    unfold Rollout.RolloutManager.publish
    rw [htext]
    rfl

/-! ### An adapter that is misspelt -/

namespace Misspelt
open Rollout

def deployment (provider : String) : Deployment := { name := "canary-primary", provider, model := "fake/primary" }

def table (provider : String) : RoutingConfig where
  routes := AList.singleton "default" [deployment provider]
  nonempty := by simp
  named := by simp [Routes.all]

/-- Two tables, their JSON texts and their fingerprints. -/
def format : TableFormat where
  fromText t :=
    if t = dumped (table "fake") then some (table "fake")
    else if t = dumped (table "faek") then some (table "faek") else none
  modelDumpJson := dumped
  fingerprint t := if dumped t = dumped (table "fake") then "00a52baf98f4" else "abe15e4bcabb"

def manager : RolloutManager where
  replica := 0
  format := format
  fallback := table "fake"

def occasion : Occasion where
  utcnow := "2026-07-30T12:00:00+00:00"
  random := 1 / 2
  elapsed := fun _ => 0
  drawn := by norm_num
  monotone := fun _ => le_refl 0

def fresh : Alone where
  store := ∅
  cache := fun _ => {}
  clock := fun _ => 0

theorem accepted {provider : String} (h : (format.fromText (dumped (table provider))).isSome = true) :
    ((manager.publish (dumped (table provider)) 10 none).run (occasion.answer manager.replica) fresh).1 ≠
      .error .valueError := by
  unfold RolloutManager.publish
  obtain ⟨t, ht⟩ := Option.isSome_iff_exists.mp h
  rw [show manager.format.fromText (dumped (table provider)) = some t from ht]
  exact fun hraises => by cases hraises

/-- Publishing the table is accepted, and it cannot be served. -/
theorem not_servable :
    ((manager.publish (dumped (table "faek")) 10 none).run (occasion.answer manager.replica) fresh).1 ≠ .error .valueError ∧
    ¬Fallback.router.Servable (table "faek") := by
  refine ⟨accepted (by decide +kernel), fun h => ?_⟩
  have hregistered := registered_of_servable h (deployment "faek") (by decide)
  revert hregistered
  decide

theorem spelt_servable :
    ∃ t, manager.format.fromText (dumped (table "fake")) = some t ∧ Fallback.router.Servable t := by
  have haccepts := @accepted "fake" (by decide +kernel)
  obtain ⟨t, ht, hiff⟩ := @accepted_servable_iff Fallback.router _ _ _ _ _ _ haccepts
  have hparses : manager.format.fromText (dumped (table "fake")) = some (table "fake") := by
    simp [manager, format]
  obtain rfl : table "fake" = t := Option.some.inj (hparses.symm.trans ht)
  refine ⟨_, ht, hiff.mpr ?_⟩
  unfold Registered
  decide

end Misspelt
end NexusGate.Gateway.LLMRouter
