import NexusGate.Gateway.Scene
import NexusGate.Gateway.Session

/-! # Breakers that have not been made

A router without `cluster` makes a breaker where it first asks one, and never asks one that has not been made:
whatever is left unmade at the end of a session is as it was at its start. -/

namespace NexusGate.Gateway.Router
open Async Redis

/-- A method of a breaker is called. -/
def Op.asks : Op → Bool
  | .breaker _ _ _ => true
  | _ => false

/-- No method of the breaker `name` of `replica` is called as long as it has not been made. -/
def makingFirst (replica : Nat) (name : String) : Monitor Op Op.Reply Exn Unit where
  may _ e := ∀ m, e ≠ .breaker replica name m
  next _ e _ _ := e ≠ .create replica name

/-- `p` asks the breaker only when it has been made, and what it returns is as `Q` says. -/
def MadeFirst (replica : Nat) (name : String) {α : Type} (Q : α → Prop) (p : Program α) : Prop :=
  Follows (makingFirst replica name) (fun r _ => ∀ a, r = .ok a → Q a) p ()

namespace MadeFirst
variable {replica : Nat} {name : String} {α β : Type} {Q : α → Prop} {p : Program α}

theorem ret {a : α} (h : Q a) : MadeFirst replica name Q (.ret a) := by
  intro b hb
  cases hb
  exact h

theorem throw {x : Exn} : MadeFirst replica name Q (.throw x) := fun _ h => by cases h

/-- An operation, of which it is known that it has not made the breaker. -/
theorem called {e : Op} {Q : e.Reply → Prop} (he : ∀ m, e ≠ .breaker replica name m)
    (hQ : e ≠ .create replica name → ∀ r, Q r) : MadeFirst replica name Q (.call e) :=
  Follows.call_iff.mpr ⟨he, fun _ _ hn r _ => hQ hn r⟩

theorem call {e : Op} (he : ∀ m, e ≠ .breaker replica name m) : MadeFirst replica name (fun _ => True) (.call e) :=
  called he fun _ _ => trivial

theorem plain {e : Op} (he : e.asks = false) : MadeFirst replica name (fun _ => True) (.call e) :=
  call fun _ h => by rw [h] at he; cases he

theorem mono {Q' : α → Prop} (h : MadeFirst replica name Q p) (hQ : ∀ a, Q a → Q' a) : MadeFirst replica name Q' p :=
  Follows.mono (fun _ _ hr a ha => hQ a (hr a ha)) h

theorem bind {Q' : β → Prop} {f : α → Program β} (hp : MadeFirst replica name Q p)
    (hf : ∀ a, Q a → MadeFirst replica name Q' (f a)) : MadeFirst replica name Q' (p.bind f) :=
  Follows.bind hp (fun a _ ha => hf a (ha a rfl)) fun _ _ _ _ h => by cases h

theorem attempt (hp : MadeFirst replica name Q p) :
    MadeFirst replica name (fun r : Except Exn α => ∀ a, r = .ok a → Q a) p.attempt := by
  refine Follows.attempt_iff.mpr (Follows.mono (fun r _ hr o ho => ?_) hp)
  cases ho
  exact hr

theorem caught (hp : MadeFirst replica name Q p) :
    MadeFirst replica name (fun r : Except Exn α => ∀ a, r = .ok a → Q a) (caught p) := by
  refine hp.attempt.bind fun r hr => ?_
  cases r with
  | ok a => exact .ret hr
  | error x =>
    show MadeFirst _ _ _ (ite _ _ _)
    split
    · exact .ret hr
    · exact .throw

end MadeFirst

/-! ### What a run leaves alone -/

theorem State.mem_create {s : State} {replica r : Nat} {name n : String} :
    n ∈ (s.create replica name).known r ↔ n ∈ s.known r ∨ (r = replica ∧ n = name) := by
  unfold State.create
  split
  · rename_i h
    constructor
    · exact Or.inl
    · rintro (h' | ⟨rfl, rfl⟩)
      · exact h'
      · exact h
  · by_cases hr : r = replica
    · subst hr
      simp
    · simp [hr]

theorem Scene.breakers_create {s : Scene} {replica : Nat} {name : String} :
    (s.create replica name).breakers = s.breakers := by
  show (s.toState.create replica name).breakers = _
  unfold State.create
  split <;> rfl

theorem Scene.redis_frame {s : Scene} {c : Cmd Int} :
    (s.redis c).2.known = s.known ∧ (s.redis c).2.breakers = s.breakers ∧ (s.redis c).2.others = s.others := by
  unfold Scene.redis State.redis
  dsimp only
  split <;> exact ⟨rfl, rfl, rfl⟩

section
variable {up : Bool} {replica : Nat} {name : String}

/-- No breaker is ever lost. -/
theorem answer_known {e : Op} {s : Scene} {n : String} (hn : n ∈ s.known replica) :
    n ∈ (answer up e s).2.known replica := by
  cases e with
  | redis c =>
    cases up with
    | true => exact (congrFun (Scene.redis_frame (s := s) (c := c)).1 replica).symm ▸ hn
    | false => exact hn
  | create r m => exact State.mem_create.mpr (Or.inl hn)
  | fault deployment =>
    simp only [answer]
    split <;> exact hn
  | _ => exact hn

theorem run_known {α : Type} {p : Program α} : ∀ {s : Scene} {n : String}, n ∈ s.known replica →
    n ∈ (p.run (answer up) s).2.known replica := by
  induction p with
  | ret a => exact id
  | throw x => exact id
  | op e k ih => exact fun hn => ih _ (answer_known hn)

/-- No other request touches the breaker. -/
def Scene.Untouched (s : Scene) (replica : Nat) (name : String) : Prop :=
  ∀ n breakers, s.others.get n breakers replica name = breakers replica name

/-- A breaker that has not been made is as the factory will make it, and no other request touches it. -/
structure Scene.MadeBy (factory : CircuitBreaker) (s : Scene) : Prop where
  unmade : ∀ replica name, name ∉ s.known replica → s.breakers replica name = factory
  untouched : ∀ replica name, name ∉ s.known replica → s.Untouched replica name

/-- What is neither made nor asked stays as it is. -/
theorem answer_frame {e : Op} {s : Scene} (hs : s.Untouched replica name) (he : ∀ m, e ≠ .breaker replica name m) :
    (answer up e s).2.breakers replica name = s.breakers replica name ∧ (answer up e s).2.Untouched replica name := by
  cases e with
  | redis c =>
    cases up with
    | true =>
      obtain ⟨-, hbreakers, hothers⟩ := @Scene.redis_frame s c
      exact ⟨congrFun (congrFun hbreakers replica) name, fun n => (congrArg (·.get n) hothers) ▸ hs n⟩
    | false => exact ⟨rfl, hs⟩
  | create r m => exact ⟨congrFun (congrFun Scene.breakers_create replica) name, hs⟩
  | breaker r m method =>
    refine ⟨?_, fun n => hs (n + 1)⟩
    have hother : r = replica → m ≠ name := fun hr hm => he method (by rw [hr, hm])
    refine Eq.trans ?_ (hs 0 s.breakers)
    show (State.setBreaker { s.toState with breakers := s.others.head s.breakers } r m _).breakers replica name = _
    unfold State.setBreaker
    by_cases hr : replica = r
    · subst hr
      simp only [Function.update_self, Function.update_of_ne fun hm => hother rfl hm.symm]
    · simp only [Function.update_of_ne hr]
  | fault deployment =>
    simp only [answer]
    split <;> exact ⟨rfl, hs⟩
  | _ => exact ⟨rfl, hs⟩

/-- A breaker that has not been made by the end of the run is as it was at its start. -/
theorem MadeFirst.run {α : Type} {Q : α → Prop} {p : Program α} : ∀ {s : Scene}, MadeFirst replica name Q p →
    s.Untouched replica name → name ∉ (p.run (answer up) s).2.known replica →
    (p.run (answer up) s).2.breakers replica name = s.breakers replica name := by
  induction p with
  | ret a => exact fun _ _ _ => rfl
  | throw x => exact fun _ _ _ => rfl
  | op e k ih =>
    intro s hp hs hn
    obtain ⟨hsame, hs'⟩ := @answer_frame up replica name e s hs hp.1
    have hmade : e ≠ .create replica name := by
      rintro rfl
      exact hn (run_known (s := s.create replica name) (State.mem_create.mpr (Or.inr ⟨rfl, rfl⟩)))
    exact (ih _ (hp.2 _ () hmade) hs' hn).trans hsame

end
end NexusGate.Gateway.Router

namespace NexusGate.Gateway.LLMRouter
open Async Redis Router

/-- The breaker `n` of this router is not the breaker `name` of `replica`. -/
def Apart (self : LLMRouter) (replica : Nat) (name n : String) : Prop := self.replica = replica → n ≠ name

variable {self : LLMRouter} {replica : Nat} {name : String}

/-! ### The parts of a request -/

theorem breaker_madeFirst {n : String} {m : CircuitBreaker.Method} (hn : self.Apart replica name n) :
    MadeFirst replica name (fun _ => True) (breaker self.replica n m) :=
  .call fun m' h => by
    injection h with hr hname
    exact hn hr hname

theorem create_madeFirst {n : String} :
    MadeFirst replica name (fun _ => self.Apart replica name n) (Prog.call (Op.create self.replica n)) :=
  .called (fun _ h => by cases h) fun hmade _ hr hn => hmade (by rw [hr, hn])

section
variable (halone : self.cluster = none)
include halone

theorem failed_madeFirst {n : String} (hn : self.Apart replica name n) :
    MadeFirst replica name (fun _ => True) (self.failed n) := by
  unfold failed
  rw [halone]
  exact breaker_madeFirst hn

theorem succeeded_madeFirst {n : String} (hn : self.Apart replica name n) :
    MadeFirst replica name (fun _ => True) (self.succeeded n) := by
  unfold succeeded
  rw [halone]
  exact breaker_madeFirst hn

theorem noteFailure_madeFirst {n : String} (hn : self.Apart replica name n) :
    MadeFirst replica name (fun _ => True) (self.noteFailure n) := by
  refine (failed_madeFirst halone hn).bind fun opened _ => ?_
  show MadeFirst _ _ _ (ite _ _ _)
  split
  · exact .plain rfl
  · exact .ret trivial

theorem noteSuccess_madeFirst {n : String} (hn : self.Apart replica name n) :
    MadeFirst replica name (fun _ => True) (self.noteSuccess n) :=
  (succeeded_madeFirst halone hn).bind fun _ _ => .plain rfl

theorem prepare_madeFirst {chain : List Deployment} : MadeFirst replica name (fun _ => True) (self.prepare chain) := by
  unfold prepare
  rw [halone]
  exact .ret trivial

end

theorem backOff_madeFirst {retry : Nat} : MadeFirst replica name (fun _ => True) (backOff retry) := by
  unfold backOff
  split
  · exact .plain rfl
  · exact .ret trivial

section
variable {dep : Deployment} {request : ChatRequest}

theorem injectFault_madeFirst : MadeFirst replica name (fun _ => True) (self.injectFault dep) := by
  unfold injectFault
  split
  · exact .plain rfl
  · exact .ret trivial

theorem callProvider_madeFirst : MadeFirst replica name (fun _ => True) (self.callProvider dep request) := by
  refine (MadeFirst.plain rfl).bind fun answer _ => (MadeFirst.plain rfl).bind fun _ _ => ?_
  cases answer with
  | ok response => exact .ret trivial
  | error failure => exact .throw

theorem nextDelta_madeFirst {iterator : Script} : MadeFirst replica name (fun _ => True) (self.nextDelta dep iterator) := by
  obtain ⟨deltas, failure⟩ := iterator
  refine (MadeFirst.plain rfl).bind fun _ _ => ?_
  cases deltas with
  | cons delta deltas => exact .ret trivial
  | nil =>
    cases failure with
    | none => exact .throw
    | some failure => exact .throw

theorem closeIterator_madeFirst {opened : Bool} : MadeFirst replica name (fun _ => True) (closeIterator opened) := by
  cases opened with
  | true => exact (MadeFirst.plain rfl).caught.bind fun _ _ => .ret trivial
  | false => exact .ret trivial

theorem firstDelta_madeFirst {adapter : Adapter} :
    MadeFirst replica name (fun _ => True) (self.firstDelta dep request adapter) := by
  refine injectFault_madeFirst.caught.bind fun r _ => ?_
  cases r with
  | error e => exact .ret trivial
  | ok _ =>
    show MadeFirst _ _ _ (ite _ _ _)
    split
    · refine (MadeFirst.plain rfl).bind fun iterator _ => nextDelta_madeFirst.caught.bind fun r _ => ?_
      cases r <;> exact .ret trivial
    · refine callProvider_madeFirst.caught.bind fun r _ => ?_
      cases r <;> exact .ret trivial

variable (halone : self.cluster = none)
include halone

/-- What follows a failed call. -/
theorem retry_madeFirst {α : Type} {Q : Option α × List Attempt → Prop} (hd : self.Apart replica name dep.name)
    (again : List Attempt → Program (Option α × List Attempt)) (attempts : List Attempt) (new : ℚ → Attempt) (ih : ∀ attempts, MadeFirst replica name Q (again attempts))
    (hnone : ∀ attempts, Q (none, attempts)) :
    MadeFirst replica name Q (do
      let latencyMs ← Prog.call Op.msSince
      self.noteFailure dep.name
      if (← breaker self.replica dep.name .state) = .closed then again (attempts ++ [new latencyMs])
      else return (none, attempts ++ [new latencyMs])) := by
  refine (MadeFirst.plain rfl).bind fun t _ => (noteFailure_madeFirst halone hd).bind fun _ _ => ?_
  refine (breaker_madeFirst hd).bind fun state _ => ?_
  show MadeFirst _ _ _ (ite _ _ _)
  split
  · exact ih _
  · exact .ret (hnone _)

theorem callLoop_madeFirst (hd : self.Apart replica name dep.name) {left : Nat} : ∀ {retry : Nat} {attempts : List Attempt},
    MadeFirst replica name (fun _ => True) (self.callLoop dep request left retry attempts) := by
  induction left with
  | zero => exact .ret trivial
  | succ left ih =>
    intro retry attempts
    refine backOff_madeFirst.bind fun _ _ => (injectFault_madeFirst.bind fun _ _ => callProvider_madeFirst).caught.bind fun r _ => ?_
    have again {new : ℚ → Attempt} :=
      retry_madeFirst halone hd (self.callLoop dep request left (retry + 1)) attempts new (fun _ => ih) fun _ => trivial
    cases r with
    | ok response =>
      exact (MadeFirst.plain rfl).bind fun t _ => (noteSuccess_madeFirst halone hd).bind fun _ _ => .ret trivial
    | error e =>
      cases e with
      | providerError message retryable =>
        cases retryable with
        | true => exact again
        | false =>
          exact (succeeded_madeFirst halone hd).bind fun _ _ => (MadeFirst.plain rfl).bind fun t _ => .throw
      | _ => exact again

theorem callWithRetries_madeFirst (hd : self.Apart replica name dep.name) {attempts : List Attempt} :
    MadeFirst replica name (fun _ => True) (self.callWithRetries dep request attempts) := by
  unfold callWithRetries
  split
  · exact .throw
  · exact callLoop_madeFirst halone hd

theorem completeFrom_madeFirst {chain : List Deployment} : ∀ {attempts : List Attempt},
    MadeFirst replica name (fun _ => True) (self.completeFrom request chain attempts) := by
  induction chain with
  | nil => exact .throw
  | cons dep chain ih =>
    intro attempts
    refine create_madeFirst.bind fun _ hd => (breaker_madeFirst hd).bind fun allowed _ => ?_
    show MadeFirst _ _ _ (ite _ _ _)
    split
    · refine (callWithRetries_madeFirst halone hd).bind fun (o, attempts) _ => ?_
      cases o with
      | none => exact ih
      | some response => exact .ret trivial
    · exact ih

theorem complete_madeFirst {config : Option RoutingConfig} :
    MadeFirst replica name (fun _ => True) (self.complete request config) := by
  unfold complete
  split
  · exact .throw
  · exact (prepare_madeFirst halone).bind fun _ _ => completeFrom_madeFirst halone

/-- The stream, if any, is one of a deployment whose breaker has been made. -/
theorem openLoop_madeFirst (hd : self.Apart replica name dep.name) {adapter : Adapter} {left : Nat} :
    ∀ {retry : Nat} {attempts : List Attempt},
    MadeFirst replica name (fun r => ∀ opened, r.1 = some opened → self.Apart replica name opened.deployment.name)
      (self.openLoop dep request adapter left retry attempts) := by
  induction left with
  | zero => exact .ret fun _ h => by cases h
  | succ left ih =>
    intro retry attempts
    refine backOff_madeFirst.bind fun _ _ => firstDelta_madeFirst.bind fun r _ => ?_
    have again {new : ℚ → Attempt} {opened : Bool} :=
      (@closeIterator_madeFirst replica name opened).bind fun _ _ =>
        retry_madeFirst halone hd (self.openLoop dep request adapter left (retry + 1)) attempts new (fun _ => ih)
          fun _ _ h => by cases h
    cases r with
    | ok first =>
      refine (MadeFirst.plain rfl).bind fun t _ => .ret fun opened h => ?_
      cases h
      exact hd
    | error e =>
      obtain ⟨e, opened⟩ := e
      cases e with
      | providerError message retryable =>
        cases retryable with
        | true => exact again
        | false =>
          exact closeIterator_madeFirst.bind fun _ _ => (succeeded_madeFirst halone hd).bind fun _ _ =>
            (MadeFirst.plain rfl).bind fun t _ => .throw
      | _ => exact again

theorem openWithRetries_madeFirst (hd : self.Apart replica name dep.name) {attempts : List Attempt} :
    MadeFirst replica name (fun r => ∀ opened, r.1 = some opened → self.Apart replica name opened.deployment.name)
      (self.openWithRetries dep request attempts) := by
  unfold openWithRetries
  split
  · exact .throw
  · exact openLoop_madeFirst halone hd

theorem openFrom_madeFirst {chain : List Deployment} : ∀ {attempts : List Attempt},
    MadeFirst replica name (fun opened => self.Apart replica name opened.deployment.name)
      (self.openFrom request chain attempts) := by
  induction chain with
  | nil => exact .throw
  | cons dep chain ih =>
    intro attempts
    refine create_madeFirst.bind fun _ hd => (breaker_madeFirst hd).bind fun allowed _ => ?_
    show MadeFirst _ _ _ (ite _ _ _)
    split
    · refine (openWithRetries_madeFirst halone hd).bind fun (o, attempts) ho => ?_
      cases o with
      | none => exact ih
      | some opened => exact .ret (ho opened rfl)
    · exact ih

theorem openStream_madeFirst {config : Option RoutingConfig} :
    MadeFirst replica name (fun opened => self.Apart replica name opened.deployment.name)
      (self.openStream request config) := by
  unfold openStream
  split
  · exact .throw
  · exact (prepare_madeFirst halone).bind fun _ _ => openFrom_madeFirst halone

end

/-! ### Relaying -/

section
variable {opened : OpenStream}

/-- The generator goes on about the same deployment. -/
abbrev Stays (opened : OpenStream) {α : Type} (r : α × OpenStream) : Prop := r.2.deployment = opened.deployment

theorem settle_deployment {text : String} : (self.settle opened text).deployment = opened.deployment := by
  unfold settle
  split
  · rfl
  · split <;> rfl

theorem estimate_deployment {words : Nat} : (self.estimate opened words).deployment = opened.deployment := by
  unfold estimate
  split <;> rfl

theorem settleUp_madeFirst {text : String} :
    MadeFirst replica name (fun after => after.deployment = opened.deployment) (self.settleUp opened text) := by
  unfold settleUp
  split
  · exact .ret rfl
  · exact (MadeFirst.plain rfl).bind fun _ _ => .ret settle_deployment

theorem leave_madeFirst {α : Type} {text : String} {r : Except Exn α} :
    MadeFirst replica name (Stays opened) (self.leave opened text r) := by
  refine settleUp_madeFirst.bind fun after hafter => closeIterator_madeFirst.attempt.bind fun o _ => ?_
  cases o with
  | ok _ => exact .ret hafter
  | error e => exact .ret hafter

variable (halone : self.cluster = none)
include halone

theorem relayEnd_madeFirst {failure : Option Failure} {delivered : List String}
    (hd : self.Apart replica name opened.deployment.name) :
    MadeFirst replica name (Stays opened) (self.relayEnd failure delivered opened) := by
  cases failure with
  | none =>
    refine (noteSuccess_madeFirst halone hd).attempt.bind fun o _ => ?_
    cases o with
    | ok _ => exact leave_madeFirst
    | error e => exact leave_madeFirst
  | some failure =>
    refine settleUp_madeFirst.bind fun after hafter => (noteFailure_madeFirst halone hd).attempt.bind fun o _ => ?_
    cases o with
    | ok _ => exact leave_madeFirst.mono fun _ h => h.trans hafter
    | error e => exact leave_madeFirst.mono fun _ h => h.trans hafter

theorem relayLoop_madeFirst {failure : Option Failure} {deltas : List StreamDelta} :
    ∀ {delivered : List String} {words : Nat} {opened : OpenStream}, self.Apart replica name opened.deployment.name →
    MadeFirst replica name (Stays opened) (self.relayLoop failure deltas delivered words opened) := by
  induction deltas with
  | nil =>
    intro delivered words opened hd
    refine (MadeFirst.plain rfl).attempt.bind fun o _ => ?_
    cases o with
    | error e => exact leave_madeFirst
    | ok _ => exact relayEnd_madeFirst halone hd
  | cons delta deltas ih =>
    intro delivered words opened hd
    refine (MadeFirst.plain rfl).attempt.bind fun o _ => ?_
    cases o with
    | error e => exact leave_madeFirst
    | ok _ =>
      show MadeFirst _ _ _ (ite _ _ _)
      split
      · exact @ih _ _ (absorb opened delta) hd
      · exact .ret (@estimate_deployment self (absorb opened delta) _)

theorem relayNext_madeFirst (hd : self.Apart replica name opened.deployment.name) :
    MadeFirst replica name (Stays opened) (self.relayNext opened) := by
  unfold relayNext
  split
  · have hsame {words : Nat} : (self.estimate (absorb opened opened.first) words).deployment = opened.deployment :=
      estimate_deployment
    exact (relayLoop_madeFirst halone (hsame ▸ hd)).mono fun _ h => h.trans hsame
  · exact relayLoop_madeFirst halone hd
  · exact .ret rfl

omit halone in
theorem relayClose_madeFirst : MadeFirst replica name (Stays opened) (self.relayClose opened) := by
  unfold relayClose
  split
  · exact .ret rfl
  · exact leave_madeFirst
  · exact .ret rfl

end

/-! ### Sessions -/

section
variable (halone : self.cluster = none)
include halone

theorem act_madeFirst {streams : List OpenStream} {action : Action}
    (hs : ∀ opened ∈ streams, self.Apart replica name opened.deployment.name) :
    MadeFirst replica name (fun r => ∀ opened ∈ r.2, self.Apart replica name opened.deployment.name)
      (self.act streams action) := by
  have hset : ∀ {i opened after}, streams[i]? = some opened → after.deployment = opened.deployment →
      ∀ o ∈ streams.set i after, self.Apart replica name o.deployment.name := by
    intro i opened after hi hafter o ho
    rcases List.mem_or_eq_of_mem_set ho with ho | rfl
    · exact hs o ho
    · exact hafter ▸ hs opened (List.mem_of_getElem? hi)
  cases action with
  | complete request config => exact (complete_madeFirst halone).attempt.bind fun _ _ => .ret hs
  | openStream request config =>
    refine (openStream_madeFirst halone).attempt.bind fun r hr => ?_
    cases r with
    | ok opened =>
      refine .ret fun o ho => ?_
      rcases List.mem_append.mp ho with ho | ho
      · exact hs o ho
      · obtain rfl := List.mem_singleton.mp ho
        exact hr o rfl
    | error e => exact .ret hs
  | next i =>
    simp only [act]
    cases hi : streams[i]? with
    | none => exact .ret hs
    | some opened =>
      exact (relayNext_madeFirst halone (hs opened (List.mem_of_getElem? hi))).bind fun _ h => .ret (hset hi h)
  | close i =>
    simp only [act]
    cases hi : streams[i]? with
    | none => exact .ret hs
    | some opened => exact relayClose_madeFirst.bind fun _ h => .ret (hset hi h)

theorem session_madeFirst {actions : List Action} : ∀ {streams : List OpenStream},
    (∀ opened ∈ streams, self.Apart replica name opened.deployment.name) →
    MadeFirst replica name (fun _ => True) (self.session actions streams) := by
  induction actions with
  | nil => exact fun _ => .ret trivial
  | cons action actions ih => exact fun hs => (act_madeFirst halone hs).bind fun _ h => (ih h).bind fun _ _ => .ret trivial

end
end NexusGate.Gateway.LLMRouter
