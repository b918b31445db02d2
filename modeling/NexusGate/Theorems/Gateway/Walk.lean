import NexusGate.Gateway.Walk

/-! # Whole answers

With no other request under way, `complete` is the walk along its chain. -/

namespace NexusGate.Gateway.Router
open Async Redis

/-! ### What calls no provider -/

/-- No call to a provider lies between the two. -/
structure Spares (s s' : Scene) : Prop where
  answers : s'.answers = s.answers
  calls : s'.calls = s.calls

theorem Spares.refl {s : Scene} : Spares s s := ⟨rfl, rfl⟩

theorem Spares.trans {s s' s'' : Scene} (h : Spares s s') (h' : Spares s' s'') : Spares s s'' :=
  ⟨h'.answers.trans h.answers, h'.calls.trans h.calls⟩

/-- Recording an outcome calls no provider. -/
structure SparesCalls (rec : Recording) : Prop where
  failed : ∀ name s, Spares s (rec.failed name s)
  succeeded : ∀ name s, Spares s (rec.succeeded name s)

section
variable {up : Bool} {s : Scene}

/-- The program calls no provider, and what it raises is not a cancellation. -/
def Tries (up : Bool) {α : Type} (p : Program α) (s : Scene) : Prop :=
  Ends (answer up) p s fun r s' => (∀ x, r = .error x → x.isException = true) ∧ Spares s s'

theorem redis_tries {c : Cmd Int} : Tries up (redis c) s := by
  refine .call ?_
  cases up with
  | false => exact ⟨fun x hx => (by cases hx; rfl), .refl⟩
  | true =>
    refine ⟨fun x hx => ?_, ⟨rfl, rfl⟩⟩
    simp only [answer, if_true, Scene.redis, State.redis] at hx
    split at hx <;> cases hx
    rfl

theorem Tries.attempt {α : Type} {p : Program α} (hp : Tries up p s) :
    Ends (answer up) p.attempt s fun r s' =>
      ∃ o, r = .ok o ∧ (∀ x, o = .error x → x.isException = true) ∧ Spares s s' :=
  .attempt (Ends.mono hp fun r _ hr => ⟨r, rfl, hr⟩)

theorem pipeline_tries : ∀ {cs : List (Cmd Int)} {s : Scene}, Tries up (pipeline cs) s
  | [], _ => .ret ⟨nofun, .refl⟩
  | c :: cs, s => by
    refine redis_tries.attempt.bind (fun o s₁ ho => ?_) fun _ _ hx => by obtain ⟨_, hx, -⟩ := hx; cases hx
    obtain ⟨o', ho, hx, h₁⟩ := ho
    cases ho
    refine pipeline_tries.attempt.bind (fun os s₂ hos => ?_) fun _ _ hx => by obtain ⟨_, hx, -⟩ := hx; cases hx
    obtain ⟨os', hos, hxs, h₂⟩ := hos
    cases hos
    cases o with
    | error x => exact .throw ⟨fun _ h => hx _ (by cases h; rfl), h₁.trans h₂⟩
    | ok reply =>
      cases os with
      | error x => exact .throw ⟨fun _ h => hxs _ (by cases h; rfl), h₁.trans h₂⟩
      | ok replies => exact .ret ⟨nofun, h₁.trans h₂⟩

/-- The program returns, and calls no provider. -/
def Goes (up : Bool) {α : Type} (p : Program α) (s : Scene) : Prop :=
  Ends (answer up) p s fun r s' => (∃ a, r = .ok a) ∧ Spares s s'

theorem Goes.ret {α : Type} {a : α} : Goes up (.ret a) s := ⟨⟨a, rfl⟩, .refl⟩

theorem Goes.call {e : Op} (h : ∃ a, (answer up e s).1 = .ok a) (hs : Spares s (answer up e s).2) :
    Goes up (.call e) s :=
  Ends.call ⟨h, hs⟩

theorem Goes.bind {α β : Type} {p : Program α} {f : α → Program β} (hp : Goes up p s)
    (hf : ∀ a s', Goes up (f a) s') : Goes up (p.bind f) s :=
  Ends.bind hp (fun a s' h => Ends.mono (hf a s') fun _ _ h' => ⟨h'.1, h.2.trans h'.2⟩)
    fun _ _ hx => by cases hx.1.choose_spec

theorem caught_goes {α : Type} {p : Program α} (hp : Tries up p s) : Goes up (caught p) s :=
  ends_caught (Ends.mono hp fun r _ hr => ⟨hr.1, ⟨r, rfl⟩, hr.2⟩)

theorem breaker_goes {replica : Nat} {name : String} {m : CircuitBreaker.Method} :
    Goes up (breaker replica name m) s :=
  .call ⟨_, rfl⟩ ⟨rfl, rfl⟩

variable {cluster : ClusterBreakers} {replica : Nat} {name : String}

theorem publishOpen_goes : Goes up (cluster.publishOpen name) s :=
  (caught_goes pipeline_tries).bind fun _ _ => .ret

theorem recordFailure_goes : Goes up (cluster.recordFailure replica name) s := by
  refine breaker_goes.bind fun opened s' => ?_
  cases opened with
  | true => exact publishOpen_goes.bind fun _ _ => .ret
  | false =>
    refine (caught_goes pipeline_tries).bind fun o s'' => ?_
    split
    · show Goes up (ite _ _ _) s''
      split
      · exact publishOpen_goes.bind fun _ _ => breaker_goes.bind fun _ _ => .ret
      · exact .ret
    · exact .ret

theorem recordSuccess_goes : Goes up (cluster.recordSuccess replica name) s :=
  breaker_goes.bind fun _ _ => (caught_goes redis_tries).bind fun _ _ => .ret

theorem agreeOn_goes {openFlag fails : Redis.Reply Int} : Goes up (cluster.agreeOn replica name openFlag fails) s := by
  refine (Goes.call ⟨_, rfl⟩ ⟨rfl, rfl⟩).bind fun known s₁ => ?_
  show Goes up (ite _ _ _) s₁
  split
  · split
    · exact breaker_goes.bind fun _ _ => breaker_goes
    · refine breaker_goes.bind fun state s₂ => ?_
      show Goes up (ite _ _ _) s₂
      split
      · refine (caught_goes redis_tries).bind fun won s₃ => ?_
        split <;> (show Goes up (ite _ _ _) s₃; split; exact breaker_goes; exact .ret)
      · split
        · exact breaker_goes.bind fun _ _ => breaker_goes
        · exact .ret
  · exact .ret

theorem agree_goes : ∀ {names : List String} {results : List (Redis.Reply Int)} {s : Scene},
    Goes up (cluster.agree replica names results) s
  | [], _, _ => .ret
  | _ :: _, [], _ => .ret
  | _ :: _, [_], _ => .ret
  | _ :: _, _ :: _ :: _, _ => agreeOn_goes.bind fun _ _ => agree_goes

theorem sync_goes {names : List String} : Goes up (cluster.sync replica names) s := by
  refine (Goes.call ⟨_, rfl⟩ ⟨rfl, rfl⟩).bind fun now s₁ => (Goes.call ⟨_, rfl⟩ ⟨rfl, rfl⟩).bind fun syncedAt s₂ => ?_
  show Goes up (ite _ _ _) s₂
  split
  · exact .ret
  · refine (Goes.call ⟨_, rfl⟩ ⟨rfl, rfl⟩).bind fun _ s₃ => (caught_goes pipeline_tries).bind fun o s₄ => ?_
    cases o with
    | error _ => exact .ret
    | ok results => exact agree_goes

end

theorem breaker_ends {up : Bool} {s : Scene} {replica : Nat} {name : String} {m : CircuitBreaker.Method}
    {Q : Except Exn m.Reply → Scene → Prop} (h : Q (.ok (s.ask replica name m).1) (s.ask replica name m).2) :
    Ends (answer up) (breaker replica name m) s Q :=
  .call h

/-- What a call for a whole answer comes to. -/
def wholeAnswer (_ : Deployment) (a : Answer) : Except Failure ProviderResponse := a.whole

/-- What is left of a retry loop after the calls that a visit says: the new attempts, what the loop returns or
    raises, and the surroundings, on which `settle` may have done something more. -/
def Visited {α β : Type} (dep : Deployment) (attempts : List Attempt) (settle : Visit α → Scene → Scene)
    (serves : α → List Attempt → β → Prop) (o : List Outcome × Visit α × Scene)
    (r : Except Exn (Option β × List Attempt)) (s : Scene) : Prop :=
  s = settle o.2.1 o.2.2 ∧ ∃ new, new.map note = o.1.map (Prod.mk dep.name) ∧
    match o.2.1 with
    | .answered a => ∃ b, r = .ok (some b, attempts ++ new) ∧ serves a (attempts ++ new) b
    | .rejected message => r = .error (.clientRequest message (attempts ++ new))
    | .gaveUp => r = .ok (none, attempts ++ new)

/-- One more attempt in front. -/
theorem Visited.cons {α β : Type} {dep : Deployment} {attempts : List Attempt} {settle : Visit α → Scene → Scene}
    {serves : α → List Attempt → β → Prop} {o : List Outcome × Visit α × Scene}
    {r : Except Exn (Option β × List Attempt)} {s : Scene} {a : Attempt} (ha : a.deployment = dep.name)
    (h : Visited dep (attempts ++ [a]) settle serves o r s) :
    Visited dep attempts settle serves (a.outcome :: o.1, o.2) r s := by
  obtain ⟨hs, new, hnew, hr⟩ := h
  refine ⟨hs, a :: new, by simp [hnew, note, ha], ?_⟩
  simpa only [List.append_assoc, List.singleton_append] using hr

/-- An answer or an exception that carries the attempts so far tells of a walk that ended so. -/
def Report {α β : Type} (route : String) (attempts : List Attempt)
    (serves : Deployment → α → List Attempt → β → Prop) (notes : List (String × Outcome)) (ending : Ending α)
    (r : Except Exn β) : Prop :=
  ∃ new, new.map note = notes ∧
    match ending with
    | .served dep a => ∃ b, r = .ok b ∧ serves dep a (attempts ++ new) b
    | .rejected message => r = .error (.clientRequest message (attempts ++ new))
    | .allFailed => r = .error (.allProvidersFailed route (attempts ++ new))
    | .noAdapter dep => r = .error (.unknownModel (LLMRouter.noAdapter dep))

theorem Report.append {α β : Type} {route : String} {attempts new : List Attempt}
    {serves : Deployment → α → List Attempt → β → Prop} {notes : List (String × Outcome)} {ending : Ending α}
    {r : Except Exn β} (h : Report route (attempts ++ new) serves notes ending r) :
    Report route attempts serves (new.map note ++ notes) ending r := by
  obtain ⟨more, hmore, hr⟩ := h
  refine ⟨new ++ more, by rw [List.map_append, hmore], ?_⟩
  cases ending with
  | noAdapter dep => exact hr
  | _ => simpa only [List.append_assoc] using hr

theorem Report.mono {α β : Type} {route : String} {attempts : List Attempt}
    {serves serves' : Deployment → α → List Attempt → β → Prop} {notes : List (String × Outcome)}
    {ending : Ending α} {r : Except Exn β} (h : Report route attempts serves notes ending r)
    (hs : ∀ dep a attempts b, serves dep a attempts b → serves' dep a attempts b) :
    Report route attempts serves' notes ending r := by
  obtain ⟨new, hnew, hr⟩ := h
  refine ⟨new, hnew, ?_⟩
  cases ending with
  | served dep a =>
    obtain ⟨b, hb, h⟩ := hr
    exact ⟨b, hb, hs _ _ _ _ h⟩
  | _ => exact hr

end NexusGate.Gateway.Router

namespace NexusGate.Gateway.LLMRouter
open Async Redis Router
variable {self : LLMRouter} {up : Bool} {s : Scene}

/-! ### The parts of a call -/

theorem failed_goes {name : String} : Goes up (self.failed name) s := by
  unfold failed
  split
  · exact recordFailure_goes
  · exact breaker_goes

theorem succeeded_goes {name : String} : Goes up (self.succeeded name) s := by
  unfold succeeded
  split
  · exact recordSuccess_goes
  · exact breaker_goes

theorem createAll_goes : ∀ {names : List String} {s : Scene}, Goes up (self.createAll names) s
  | [], _ => .ret
  | _ :: _, _ => (Goes.call ⟨_, rfl⟩ ⟨rfl, rfl⟩).bind fun _ _ => createAll_goes

theorem prepare_goes {chain : List Deployment} : Goes up (self.prepare chain) s := by
  unfold prepare
  split
  · exact .ret
  · exact createAll_goes.bind fun _ _ => sync_goes

/-- What the router does about an outcome, with the breakers that it shares, or with its own. -/
def recording (self : LLMRouter) (up : Bool) : Recording where
  failed name s := ((self.failed name).run (answer up) s).2
  succeeded name s := ((self.succeeded name).run (answer up) s).2

theorem recording_spares : SparesCalls (self.recording up) := ⟨fun _ _ => failed_goes.2, fun _ _ => succeeded_goes.2⟩

/-- What a chain finds when its walk begins. -/
def prepared (self : LLMRouter) (up : Bool) (chain : List Deployment) (s : Scene) : Scene :=
  ((self.prepare chain).run (answer up) s).2

/-- A part that goes leaves what it leaves. -/
theorem goes_ends {α : Type} {p : Program α} (h : Goes up p s) :
    Ends (answer up) p s fun r s' => (∃ a, r = .ok a) ∧ s' = (p.run (answer up) s).2 :=
  ⟨h.1, rfl⟩

/-- Setting a gauge changes nothing else. -/
theorem gauge_ends {name : String} {shown : Bool} :
    Ends (answer up) (.call (Op.gauge self.replica name shown) : Program Unit) s fun r s' => r = .ok () ∧ s' = s :=
  .call ⟨rfl, rfl⟩

theorem noteFailure_ends {name : String} : Ends (answer up) (self.noteFailure name) s fun r s' =>
    (∃ a, r = .ok a) ∧ s' = (self.recording up).failed name s := by
  refine (goes_ends failed_goes).bind (fun opened s' hs => ?_) fun _ _ hx => by cases hx.1.choose_spec
  cases opened with
  | true => exact gauge_ends.mono fun _ _ hr => ⟨⟨_, hr.1⟩, hr.2.trans hs.2⟩
  | false => exact .ret ⟨⟨_, rfl⟩, hs.2⟩

theorem noteSuccess_ends {name : String} : Ends (answer up) (self.noteSuccess name) s fun r s' =>
    (∃ a, r = .ok a) ∧ s' = (self.recording up).succeeded name s := by
  refine (goes_ends succeeded_goes).bind (fun _ s' hs => ?_) fun _ _ hx => by cases hx.1.choose_spec
  exact gauge_ends.mono fun _ _ hr => ⟨⟨_, hr.1⟩, hr.2.trans hs.2⟩

theorem backOff_ends {retry : Nat} : Ends (answer up) (backOff retry) s fun r s' => r = .ok () ∧ s' = s := by
  unfold backOff
  split
  · exact .call ⟨rfl, rfl⟩
  · exact .ret ⟨rfl, rfl⟩

/-- The fault check of an attempt. -/
theorem injectFault_ends {dep : Deployment} : Ends (answer up) (self.injectFault dep) s fun r s' =>
    (self.faults && s.answers.head.injected) = true ∧ r = .error (injectedFault dep.name).exn ∧ s' = s.spend ∨
    (self.faults && s.answers.head.injected) = false ∧ r = .ok () ∧ s' = s := by
  unfold injectFault
  cases hf : self.faults with
  | false => exact .ret (Or.inr ⟨rfl, rfl, rfl⟩)
  | true =>
    refine .call ?_
    cases hi : s.answers.head.injected with
    | true => exact Or.inl ⟨rfl, by simp [answer, hi]⟩
    | false => exact Or.inr ⟨rfl, by simp [answer, hi]⟩

theorem callProvider_ends {dep : Deployment} {request : ChatRequest} :
    Ends (answer up) (self.callProvider dep request) s fun r s' =>
      r = s.answers.head.whole.mapError Failure.exn ∧ s' = s.spendOn dep := by
  refine Ends.bind (P := fun r s' => r = .ok s.answers.head.whole ∧ s' = s.spendOn dep) (.call ⟨rfl, rfl⟩)
    (fun a s' hr => ?_) fun _ _ hx => by cases hx.1
  obtain ⟨ha, rfl⟩ := hr
  cases ha
  refine Ends.bind (P := fun r s' => r = .ok () ∧ s' = s.spendOn dep) (.call ⟨rfl, rfl⟩)
    (fun a s' hr => ?_) fun _ _ hx => by cases hx.1
  obtain ⟨-, rfl⟩ := hr
  cases s.answers.head.whole with
  | ok response => exact .ret ⟨rfl, rfl⟩
  | error f => exact .throw ⟨rfl, rfl⟩

theorem call_ends {dep : Deployment} {request : ChatRequest} :
    Ends (answer up) (Router.caught (do self.injectFault dep; self.callProvider dep request)) s fun r s' =>
      r = .ok ((attempt self.faults wholeAnswer dep s).1.mapError Failure.exn) ∧
        s' = (attempt self.faults wholeAnswer dep s).2 := by
  refine ends_caught (injectFault_ends.bind (fun _ s' h => ?_) fun x s' h => ?_)
  · rcases h with ⟨-, h, -⟩ | ⟨hf, -, rfl⟩
    · cases h
    · refine callProvider_ends.mono fun r s'' h => ?_
      obtain ⟨rfl, rfl⟩ := h
      rw [attempt, if_neg (Bool.eq_false_iff.mp hf)]
      refine ⟨fun x hx => ?_, rfl, rfl⟩
      cases ha : s'.answers.head.whole with
      | ok _ => rw [ha] at hx; cases hx
      | error f =>
        rw [ha] at hx
        cases hx
        exact f.isException_exn
  · rcases h with ⟨hf, h, rfl⟩ | ⟨-, h, -⟩
    · cases h
      rw [attempt, if_pos hf]
      exact ⟨fun x hx => by (cases hx; rfl), rfl, rfl⟩
    · cases h

/-- A retry loop after a failed call: it goes on, unless the circuit is not closed any more. -/
theorem retry_ends {α β : Type} {dep : Deployment} {attempts : List Attempt}
    {settle : Visit α → Scene → Scene} {serves : α → List Attempt → β → Prop}
    {next : Scene → List Outcome × Visit α × Scene} {again : List Attempt → Program (Option β × List Attempt)}
    {new : ℚ → Attempt} {outcome : Outcome} (hdep : ∀ t, (new t).deployment = dep.name)
    (hnew : ∀ t, (new t).outcome = outcome) (hsettle : ∀ s, settle .gaveUp s = s)
    (ih : ∀ attempts s, Ends (answer up) (again attempts) s (Visited dep attempts settle serves (next s))) :
    Ends (answer up) (do
        let latencyMs ← Prog.call Op.msSince
        self.noteFailure dep.name
        if (← breaker self.replica dep.name .state) = .closed then again (attempts ++ [new latencyMs])
        else return (none, attempts ++ [new latencyMs])) s
      (Visited dep attempts settle serves
        (match ((self.recording up).failed dep.name s).ask self.replica dep.name .state with
        | (.closed, s) => (outcome :: (next s).1, (next s).2)
        | (_, s) => ([outcome], .gaveUp, s))) := by
  refine Ends.bind (P := fun r s' => r = .ok s.latencyMs ∧ s' = s) (.call ⟨rfl, rfl⟩) (fun t s' hs => ?_)
    fun _ _ hx => by cases hx.1
  obtain ⟨-, rfl⟩ := hs
  refine noteFailure_ends.bind (fun _ s₁ hs => ?_) fun _ _ hx => by cases hx.1.choose_spec
  obtain rfl := hs.2
  refine Ends.bind (P := fun r s₂ => r = .ok _ ∧ s₂ = _) (breaker_ends ⟨rfl, rfl⟩) (fun state s₂ hs => ?_)
    fun _ _ hx => by cases hx.1
  obtain ⟨hstate, rfl⟩ := hs
  cases hstate
  show Ends _ _ _ (Visited dep attempts settle serves
    (match (((self.recording up).failed dep.name s').ask self.replica dep.name .state) with
      | (.closed, s) => _
      | (_, s) => _))
  generalize ((self.recording up).failed dep.name s').ask self.replica dep.name .state = o
  obtain ⟨state, s₃⟩ := o
  have stop : Ends (answer up) (.ret (none, attempts ++ [new t])) s₃
      (Visited dep attempts settle serves ([outcome], .gaveUp, s₃)) :=
    .ret ⟨(hsettle s₃).symm, [new t], by simp [note, hdep, hnew], rfl⟩
  cases state with
  | closed =>
    refine (ih _ s₃).mono fun r s' hr => ?_
    rw [← hnew t]
    exact hr.cons (hdep t)
  | opened => exact stop
  | halfOpen => exact stop

/-- What is recorded after the calls to one deployment. -/
def settleVisit {α : Type} (rec : Recording) (dep : Deployment) : Visit α → Scene → Scene
  | .answered _, s => rec.succeeded dep.name s
  | .rejected _, s => s
  | .gaveUp, s => s

theorem callLoop_ends {dep : Deployment} {request : ChatRequest} {left : Nat} :
    ∀ {retry : Nat} {attempts : List Attempt} {s : Scene},
    Ends (answer up) (self.callLoop dep request left retry attempts) s
      (Visited dep attempts (settleVisit (self.recording up) dep) (fun a _ b => b = a)
        (visit self.replica (self.recording up) self.faults wholeAnswer dep left s)) := by
  induction left with
  | zero => exact .ret ⟨rfl, [], rfl, by simp [visit]⟩
  | succ left ih =>
    intro retry attempts s
    refine backOff_ends.bind (fun _ s' hs => ?_) fun _ _ hx => by cases hx.1
    obtain rfl := hs.2
    refine call_ends.bind (fun r s₁ hr => ?_) fun _ _ hx => by cases hx.1
    obtain ⟨hr, rfl⟩ := hr
    obtain rfl := Except.ok.inj hr
    rw [visit]
    generalize attempt self.faults wholeAnswer dep s' = o
    obtain ⟨r, s₁⟩ := o
    cases r with
    | ok response =>
      refine Ends.bind (P := fun r s' => r = .ok s₁.latencyMs ∧ s' = s₁) (.call ⟨rfl, rfl⟩) (fun t s' hs => ?_)
        fun _ _ hx => by cases hx.1
      obtain rfl := hs.2
      refine noteSuccess_ends.bind (fun _ s₂ hs => ?_) fun _ _ hx => by cases hx.1.choose_spec
      exact .ret ⟨hs.2, [_], rfl, response, rfl, rfl⟩
    | error f =>
      cases f with
      | provider message retryable =>
        cases retryable with
        | true => exact retry_ends (fun _ => rfl) (fun _ => rfl) (fun _ => rfl) fun _ _ => ih
        | false =>
          refine (goes_ends succeeded_goes).bind (fun _ s₂ hs => ?_) fun _ _ hx => by cases hx.1.choose_spec
          obtain rfl := hs.2
          refine Ends.bind (P := fun r s' => (∃ t, r = .ok t) ∧ s' = _) (.call ⟨⟨_, rfl⟩, rfl⟩)
            (fun t s' hs => ?_) fun _ _ hx => by cases hx.1.choose_spec
          obtain rfl := hs.2
          exact .throw ⟨rfl, [_], rfl, rfl⟩
      | timeout => exact retry_ends (fun _ => rfl) (fun _ => rfl) (fun _ => rfl) fun _ _ => ih
      | other kind message => exact retry_ends (fun _ => rfl) (fun _ => rfl) (fun _ => rfl) fun _ _ => ih

/-! ### The chain -/

/-- Whether a provider is registered. -/
def hasAdapter (self : LLMRouter) (provider : String) : Bool := (self.providers.lookup provider).isSome

/-- What a deployment that served leaves to be recorded. -/
def settleEnding {α : Type} (settle : Deployment → Visit α → Scene → Scene) : Ending α → Scene → Scene
  | .served dep a, s => settle dep (.answered a) s
  | _, s => s

/-- The loop over a chain, whatever the calls to one deployment are and however its answer is passed on. -/
theorem chain_ends {α β γ : Type} {request : ChatRequest} (outcome : Deployment → Answer → Except Failure α)
    (settle : Deployment → Visit α → Scene → Scene) (serves : Deployment → α → List Attempt → β → Prop)
    (calls : Deployment → List Attempt → Program (Option β × List Attempt))
    (result : Deployment → β → List Attempt → γ) (loop : List Deployment → List Attempt → Program γ)
    (hrej : ∀ dep message s, settle dep (.rejected message) s = s) (hgave : ∀ dep s, settle dep .gaveUp s = s)
    (hnil : ∀ attempts, loop [] attempts = .throw (.allProvidersFailed request.model attempts))
    (hcons : ∀ dep chain attempts, loop (dep :: chain) attempts = do
      let _ ← Prog.call (Op.create self.replica dep.name)
      if ← breaker self.replica dep.name .allowRequest then
        match ← calls dep attempts with
        | (none, attempts) => loop chain attempts
        | (some b, attempts) => return result dep b attempts
      else loop chain (attempts ++ [{ deployment := dep.name, outcome := .skippedCircuitOpen }]))
    (hmissing : ∀ dep attempts, self.hasAdapter dep.provider = false →
      calls dep attempts = .throw (.unknownModel (noAdapter dep)))
    (hcalls : ∀ dep attempts s, self.hasAdapter dep.provider = true → Ends (answer up) (calls dep attempts) s
      (Visited dep attempts (settle dep) (serves dep)
        (visit self.replica (self.recording up) self.faults outcome dep (dep.maxRetries + 1) s)))
    {chain : List Deployment} : ∀ {attempts : List Attempt} {s : Scene},
    Ends (answer up) (loop chain attempts) s fun r s' =>
      let o := walk self.replica (self.recording up) self.faults outcome self.hasAdapter chain s
      s' = settleEnding settle o.2.1 o.2.2 ∧
      Report request.model attempts (fun dep a attempts c => ∃ b, serves dep a attempts b ∧ c = result dep b attempts)
        o.1 o.2.1 r := by
  induction chain with
  | nil =>
    intro attempts s
    rw [hnil]
    exact .throw ⟨rfl, [], rfl, by simp [walk]⟩
  | cons dep chain ih =>
    intro attempts s
    rw [hcons]
    refine Ends.bind (P := fun r s' => r = .ok () ∧ s' = s.create self.replica dep.name) (.call ⟨rfl, rfl⟩)
      (fun _ s' hs => ?_) fun _ _ hx => by cases hx.1
    obtain rfl := hs.2
    refine Ends.bind (P := fun r s₁ => r = .ok _ ∧ s₁ = _) (breaker_ends ⟨rfl, rfl⟩) (fun allowed s₁ hs => ?_)
      fun _ _ hx => by cases hx.1
    obtain ⟨hallowed, rfl⟩ := hs
    cases hallowed
    rw [walk]
    generalize (s.create self.replica dep.name).ask self.replica dep.name .allowRequest = o
    obtain ⟨allowed, s₁⟩ := o
    cases allowed with
    | false => exact ih.mono fun r s₂ hr => ⟨hr.1, hr.2.append⟩
    | true =>
      cases had : self.hasAdapter dep.provider with
      | false =>
        show Ends _ ((calls dep attempts).bind _) _ _
        rw [hmissing dep attempts had]
        exact .throw ⟨rfl, [], rfl, rfl⟩
      | true =>
        simp only [if_true]
        refine (hcalls dep attempts s₁ had).bind (fun o s₂ hv => ?_) fun x s₂ hv => ?_
        all_goals
          revert hv
          generalize visit self.replica (self.recording up) self.faults outcome dep (dep.maxRetries + 1) s₁ = v
          obtain ⟨outcomes, ending, s₃⟩ := v
          rintro ⟨hs, new, hnew, hr⟩
        · cases ending with
          | answered a =>
            obtain ⟨b, hr, hb⟩ := hr
            cases hr
            exact .ret ⟨hs, new, hnew, _, rfl, b, hb, rfl⟩
          | rejected message => cases hr
          | gaveUp =>
            cases hr
            obtain rfl : s₂ = s₃ := hs.trans (hgave dep s₃)
            refine ih.mono fun r s₄ hr => ⟨hr.1, ?_⟩
            have happ := hr.2.append
            rw [hnew] at happ
            exact happ
        · cases ending with
          | answered a =>
            obtain ⟨b, hr, -⟩ := hr
            cases hr
          | rejected message =>
            cases hr
            exact ⟨hs.trans (hrej dep message s₃), new, hnew, rfl⟩
          | gaveUp => cases hr

/-- The walk that a request makes, from the scene it finds. -/
def walks {α : Type} (self : LLMRouter) (up : Bool) (outcome : Deployment → Answer → Except Failure α)
    (chain : List Deployment) (s : Scene) : List (String × Outcome) × Ending α × Scene :=
  walk self.replica (self.recording up) self.faults outcome self.hasAdapter chain (self.prepared up chain s)

theorem settleEnding_visit {α : Type} {rec : Recording} {ending : Ending α} :
    settleEnding (settleVisit rec) ending s = ending.settle rec s := by
  cases ending <;> rfl

theorem complete_ends {request : ChatRequest} {config : Option RoutingConfig} {chain : List Deployment}
    (hchain : self.chainOf request config = some chain) :
    Ends (answer up) (self.complete request config) s fun r s' =>
      let o := self.walks up wholeAnswer chain s
      s' = o.2.1.settle (self.recording up) o.2.2 ∧
      Report request.model [] (fun dep response attempts result =>
          result = { response, deployment := dep, attempts, costUsd := self.computeCost dep response.usage })
        o.1 o.2.1 r := by
  unfold complete
  rw [hchain]
  refine (goes_ends prepare_goes).bind (fun _ s' hs => ?_) fun _ _ hx => by cases hx.1.choose_spec
  obtain rfl := hs.2
  refine (chain_ends wholeAnswer (settleVisit (self.recording up)) (fun _ a _ b => b = a)
    (fun dep => self.callWithRetries dep request)
    (fun dep response attempts => { response, deployment := dep, attempts, costUsd := self.computeCost dep response.usage })
    (self.completeFrom request) (fun _ _ _ => rfl) (fun _ _ => rfl) (fun _ => rfl) (fun dep chain attempts => ?_)
    (fun dep attempts hm => ?_) (fun dep attempts s hm => ?_)).mono fun r s' hr => ⟨?_, hr.2.mono ?_⟩
  · simp only [completeFrom, Prog.bind_eq]
    congr 1
    funext _
    congr 1
    funext allowed
    congr 2
    funext ⟨o, as⟩
    cases o <;> rfl
  · have hnone : self.providers.lookup dep.provider = none :=
      Option.not_isSome_iff_eq_none.mp (by simpa [hasAdapter] using hm)
    unfold callWithRetries
    rw [hnone]
  · unfold callWithRetries
    obtain ⟨adapter, ha⟩ := Option.isSome_iff_exists.mp hm
    rw [ha]
    exact callLoop_ends
  · exact hr.1.trans settleEnding_visit
  · rintro dep a attempts b ⟨c, rfl, rfl⟩
    rfl

/-! ### Without shared breakers -/

theorem recording_local (h : self.cluster = none) : self.recording up = .onBreaker self.replica := by
  unfold recording failed succeeded Recording.onBreaker
  rw [h]
  rfl

theorem prepared_local (h : self.cluster = none) {chain : List Deployment} : self.prepared up chain s = s := by
  unfold prepared prepare
  rw [h]
  rfl

/-- `complete` is the walk along its chain: it makes the calls that the walk makes, notes what it notes, ends
    as it ends and leaves what it leaves. -/
theorem complete_walks (h : self.cluster = none) {request : ChatRequest} {config : Option RoutingConfig}
    {chain : List Deployment} (hchain : self.chainOf request config = some chain) (reachable : Bool) (s : Scene) :
    let o := walk self.replica (.onBreaker self.replica) self.faults wholeAnswer self.hasAdapter chain s
    let out := (self.complete request config).run (answer reachable) s
    out.2 = o.2.1.settle (.onBreaker self.replica) o.2.2 ∧
      Report request.model [] (fun dep response attempts result =>
        result = { response, deployment := dep, attempts, costUsd := self.computeCost dep response.usage })
        o.1 o.2.1 out.1 := by
  have hends := @complete_ends self reachable s request config chain hchain
  rw [Ends, walks, recording_local h, prepared_local h] at hends
  exact hends

/-! ### A chain of two -/

namespace Fallback

def primary : Deployment := { name := "primary", provider := "fake", model := "fake/primary" }

def secondary : Deployment := { name := "secondary", provider := "fake", model := "fake/secondary" }

def table : RoutingConfig where
  routes := AList.singleton "default" [primary, secondary]
  nonempty := by simp
  named := by simp [Routes.all, primary, secondary]

def adapters : AList fun _ : String => Adapter := AList.singleton "fake" { streams := true }

def router : LLMRouter where
  replica := 0
  config := table
  providers := adapters
  registered := by simp [table, adapters, AList.singleton_entries, Routes.all, primary, secondary, AList.lookup]
  defaultTimeout := 5
  tokenCost := fun _ _ _ => 0
  floatText := fun _ => "5.0"

def request : ChatRequest where
  messages := [{ role := .user, content := "hello" }]
  nonempty := by simp

def hello : ProviderResponse := { content := "hello back", usage := ⟨1, 2⟩, model := "fake/secondary" }

theorem threshold_positive : (1 : Int) ≤ 3 := by decide

def breaker : CircuitBreaker := { failureThreshold := 3, cooldownSeconds := 30, positive := threshold_positive }

/-- The first call fails with a retryable error, every later one answers. -/
def scene : Scene where
  breakers := fun _ _ => breaker
  ticks := fun _ => 0
  monotonic := fun _ => 0
  answers := fun
    | 0 => { whole := .error (.provider "503" true), script := ⟨[], some (.provider "503" true)⟩ }
    | _ => { whole := .ok hello, script := ⟨[{ content := "hello back" }], none⟩ }

theorem complete_falls_back : ∃ result, ((router.complete request none).run (answer false) scene).1 = .ok result ∧
    result.deployment = secondary ∧ result.attempts.map note = [("primary", .error), ("secondary", .success)] := by
  obtain ⟨-, new, hnew, result, hr, hres⟩ := @complete_walks router rfl request none [primary, secondary] rfl
    false scene
  refine ⟨result, hr, ?_, ?_⟩
  · rw [hres]
  · rw [hres]
    exact hnew

end Fallback
end NexusGate.Gateway.LLMRouter
