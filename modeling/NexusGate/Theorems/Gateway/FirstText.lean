import NexusGate.Theorems.Gateway.Streams

/-! # Falling back until there is text

A walk that counts a deployment as failed until text has come from it, and where the router departs from it: at
a call that streams deltas without text and then fails. -/

namespace NexusGate.Gateway.LLMRouter
open Async Redis Router
variable {self : LLMRouter} {up : Bool} {s : Scene} {dep : Deployment}

/-- A stream that fails, and has no text until then. -/
def Hollow (o : Opening) : Prop := o.1.content ++ contents o.2.1.deltas = "" ∧ o.2.1.failure ≠ none

/-- A call that is answered by such a stream. -/
def MeetsHollow (self : LLMRouter) (c : Deployment × Answer) : Prop :=
  ∃ first, self.firstOf c.1 c.2 = .ok first ∧ Hollow first

/-- What a call comes to before its first text. -/
def textOf (self : LLMRouter) (dep : Deployment) (a : Answer) : Except Failure Opening :=
  match self.firstOf dep a with
  | .error f => .error f
  | .ok first =>
    if first.1.content ++ contents first.2.1.deltas = "" then
      match first.2.1.failure with
      | some f => .error f
      | none => .ok first
    else .ok first

theorem textOf_ok {a : Answer} {first : Opening} (h : self.textOf dep a = .ok first) :
    self.firstOf dep a = .ok first ∧ ¬Hollow first := by
  unfold textOf at h
  split at h
  · cases h
  · rename_i o ho
    split at h
    · cases hf : o.2.1.failure with
      | some f =>
        rw [hf] at h
        cases h
      | none =>
        rw [hf] at h
        cases h
        exact ⟨ho, fun hh => hh.2 hf⟩
    · rename_i htext
      cases h
      exact ⟨ho, fun hh => htext hh.1⟩

theorem textOf_of_not_hollow {a : Answer} (h : ¬self.MeetsHollow (dep, a)) : self.textOf dep a = self.firstOf dep a := by
  unfold textOf
  split
  · rename_i f hf
    exact hf.symm
  · rename_i o ho
    split
    · rename_i htext
      cases hf : o.2.1.failure with
      | some f => exact absurd ⟨o, ho, htext, by rw [hf]; exact Option.some_ne_none f⟩ h
      | none => exact ho.symm
    · exact ho.symm

/-! ### Calls only add up -/

section
variable {α : Type} {replica : Nat} {rec : Recording} {faults : Bool} {f : Deployment → Answer → Except Failure α}

theorem attempt_calls : s.calls <+: (attempt faults f dep s).2.calls := by
  unfold attempt
  split
  · exact List.prefix_rfl
  · exact List.prefix_append _ _

theorem visit_succ_calls (hrec : SparesCalls rec) {left : Nat}
    (ih : ∀ s : Scene, s.calls <+: (visit replica rec faults f dep left s).2.2.calls) :
    (attempt faults f dep s).2.calls <+: (visit replica rec faults f dep (left + 1) s).2.2.calls := by
  rw [visit]
  generalize attempt faults f dep s = o
  obtain ⟨r, s₁⟩ := o
  have hask : s₁.calls <+: ((rec.failed dep.name s₁).ask replica dep.name .state).2.calls :=
    ⟨[], by rw [List.append_nil]; exact (hrec.failed dep.name s₁).calls.symm⟩
  cases r with
  | ok a => exact List.prefix_rfl
  | error x =>
    rcases x with _ | ⟨_, _ | _⟩ | _
    pick_goal 2
    · exact ⟨[], by rw [List.append_nil]; exact (hrec.succeeded dep.name s₁).calls.symm⟩
    all_goals
      dsimp only
      generalize (rec.failed dep.name s₁).ask replica dep.name .state = o at hask
      obtain ⟨state, s₂⟩ := o
      cases state with
      | closed => exact hask.trans (ih s₂)
      | opened => exact hask
      | halfOpen => exact hask

theorem visit_calls (hrec : SparesCalls rec) {left : Nat} : ∀ {s : Scene},
    s.calls <+: (visit replica rec faults f dep left s).2.2.calls := by
  induction left with
  | zero => exact List.prefix_rfl
  | succ left ih => exact attempt_calls.trans (visit_succ_calls hrec fun _ => ih)

theorem walk_calls (hrec : SparesCalls rec) {adapters : String → Bool} {chain : List Deployment} : ∀ {s : Scene},
    s.calls <+: (walk replica rec faults f adapters chain s).2.2.calls := by
  induction chain with
  | nil => exact List.prefix_rfl
  | cons dep chain ih =>
    intro s
    rw [walk]
    have hask : s.calls <+: ((s.create replica dep.name).ask replica dep.name .allowRequest).2.calls :=
      List.prefix_rfl
    generalize (s.create replica dep.name).ask replica dep.name .allowRequest = o at hask
    obtain ⟨allowed, s₁⟩ := o
    cases allowed with
    | false => exact hask.trans ih
    | true =>
      cases adapters dep.provider with
      | false => exact hask
      | true =>
        simp only [if_true]
        have hvisit := @visit_calls dep α replica rec faults f hrec (dep.maxRetries + 1) s₁
        generalize visit replica rec faults f dep (dep.maxRetries + 1) s₁ = v at hvisit
        obtain ⟨outcomes, ending, s₂⟩ := v
        cases ending with
        | answered a => exact hask.trans hvisit
        | rejected message => exact hask.trans hvisit
        | gaveUp => exact (hask.trans hvisit).trans ih

end

/-! ### Where the router departs -/

/-- Where the router departs from the walk: nowhere, or at a hollow stream, which it then takes for an answer. -/
def Departs (self : LLMRouter) (s s' : Scene) (together apart : Prop) : Prop :=
  ∃ new, s'.calls = s.calls ++ new ∧
    ((together ∧ ∀ c ∈ new, ¬self.MeetsHollow c) ∨ (apart ∧ ∃ c ∈ new, self.MeetsHollow c))

/-- The calls that led here met no hollow stream. -/
theorem Departs.after {s s₁ s₂ : Scene} {together together' apart apart' : Prop} {sound : List (Deployment × Answer)}
    (hs : s₁.calls = s.calls ++ sound) (hsound : ∀ c ∈ sound, ¬self.MeetsHollow c)
    (ht : together → together') (ha : apart → apart') (h : self.Departs s₁ s₂ together apart) :
    self.Departs s s₂ together' apart' := by
  obtain ⟨new, hnew, h⟩ := h
  refine ⟨sound ++ new, by rw [hnew, hs, List.append_assoc], ?_⟩
  rcases h with ⟨h, hc⟩ | ⟨h, c, hc, hm⟩
  · refine Or.inl ⟨ht h, fun c hc' => ?_⟩
    rcases List.mem_append.mp hc' with hc' | hc'
    · exact hsound c hc'
    · exact hc c hc'
  · exact Or.inr ⟨ha h, c, List.mem_append_right _ hc, hm⟩

theorem Departs.of_calls {s s₁ s₂ : Scene} {together together' apart : Prop} (hs : s₁.calls = s.calls)
    (ht : together → together') (h : self.Departs s₁ s₂ together apart) : self.Departs s s₂ together' apart :=
  h.after (hs.trans (List.append_nil _).symm) (fun c hc => by cases hc) ht id

theorem Departs.together {s s' : Scene} {together apart : Prop} (hs : s'.calls = s.calls) (h : together) :
    self.Departs s s' together apart :=
  ⟨[], by rw [hs, List.append_nil], Or.inl ⟨h, fun c hc => by cases hc⟩⟩

/-- The two visits are the same, with an answer that has text, if any. -/
def SameVisitText (o o' : List Outcome × Visit Opening × Scene) : Prop :=
  o = o' ∧ ∀ first, o.2.1 = .answered first → ¬Hollow first

/-- The visit takes a hollow stream for an answer. -/
def HollowVisit (o : List Outcome × Visit Opening × Scene) : Prop := ∃ first, o.2.1 = .answered first ∧ Hollow first

section
variable {replica : Nat} {rec : Recording}

/-- A failed call, on which both go on, or both stop. -/
theorem retry_departs (hrec : SparesCalls rec) {outcome : Outcome}
    {next next' : Scene → List Outcome × Visit Opening × Scene}
    (ih : ∀ s, self.Departs s (next' s).2.2 (SameVisitText (next s) (next' s)) (HollowVisit (next s))) :
    let after (next : Scene → List Outcome × Visit Opening × Scene) :=
      match (rec.failed dep.name s).ask replica dep.name .state with
      | (.closed, s) => (outcome :: (next s).1, (next s).2)
      | (_, s) => ([outcome], .gaveUp, s)
    self.Departs s (after next').2.2 (SameVisitText (after next) (after next')) (HollowVisit (after next)) := by
  have hask : ((rec.failed dep.name s).ask replica dep.name .state).2.calls = s.calls :=
    (hrec.failed dep.name s).calls
  dsimp only
  generalize (rec.failed dep.name s).ask replica dep.name .state = o at hask
  obtain ⟨state, s₁⟩ := o
  have stop : self.Departs s s₁ (SameVisitText ([outcome], .gaveUp, s₁) ([outcome], .gaveUp, s₁))
      (HollowVisit ([outcome], .gaveUp, s₁)) := .together hask ⟨rfl, fun _ h => by cases h⟩
  cases state with
  | closed =>
    exact (ih s₁).of_calls hask fun h => ⟨congrArg (fun o => (outcome :: o.1, o.2)) h.1, h.2⟩
  | opened => exact stop
  | halfOpen => exact stop

/-- The next call meets a hollow stream, or fares the same in both walks. -/
theorem attempt_departs :
    (∃ first c, (attempt self.faults self.firstOf dep s).1 = .ok first ∧ Hollow first ∧ self.MeetsHollow c ∧
      (attempt self.faults self.textOf dep s).2.calls = s.calls ++ [c]) ∨
    (attempt self.faults self.firstOf dep s = attempt self.faults self.textOf dep s ∧
      (∀ first, (attempt self.faults self.textOf dep s).1 = .ok first → ¬Hollow first) ∧
      ∃ sound, (attempt self.faults self.textOf dep s).2.calls = s.calls ++ sound ∧
        ∀ c ∈ sound, ¬self.MeetsHollow c) := by
  unfold attempt
  split
  · exact Or.inr ⟨rfl, fun _ h => (by cases h), [], (List.append_nil _).symm, fun c hc => (by cases hc)⟩
  · by_cases hm : self.MeetsHollow (dep, s.answers.head)
    · obtain ⟨first, hf, hh⟩ := id hm
      exact Or.inl ⟨first, _, hf, hh, hm, rfl⟩
    · refine Or.inr ⟨?_, fun first hf => (textOf_ok hf).2, [(dep, s.answers.head)], rfl, ?_⟩
      · rw [textOf_of_not_hollow hm]
      · rintro c (_ | ⟨_, ⟨⟩⟩)
        exact hm

theorem visit_departs (hrec : SparesCalls rec) {left : Nat} : ∀ s : Scene,
    let o := visit replica rec self.faults self.firstOf dep left s
    let o' := visit replica rec self.faults self.textOf dep left s
    self.Departs s o'.2.2 (SameVisitText o o') (HollowVisit o) := by
  induction left with
  | zero => exact fun s => .together rfl ⟨rfl, fun _ h => by cases h⟩
  | succ left ih =>
    intro s
    rcases @attempt_departs self s dep with ⟨first, c, hfirst, hh, hm, hcalls⟩ | ⟨hsame, htext, sound, hcalls, hsound⟩
    · obtain ⟨more, hmore⟩ := @visit_succ_calls s dep Opening replica rec self.faults self.textOf hrec left
        fun _ => visit_calls hrec
      refine ⟨c :: more, by rw [← hmore, hcalls, List.append_assoc]; rfl, Or.inr ⟨⟨first, ?_, hh⟩, c, .head _, hm⟩⟩
      rw [visit]
      generalize attempt self.faults self.firstOf dep s = o at hfirst
      obtain ⟨r, s₁⟩ := o
      cases hfirst
      rfl
    · dsimp only
      rw [visit, visit, hsame]
      generalize attempt self.faults self.textOf dep s = o at htext hcalls
      obtain ⟨r, s₁⟩ := o
      have again := fun {outcome : Outcome} => (@retry_departs self s₁ dep replica rec hrec outcome _ _ ih).after
        hcalls hsound id id
      cases r with
      | ok first => exact ⟨sound, hcalls, Or.inl ⟨⟨rfl, fun _ h => by cases h; exact htext _ rfl⟩, hsound⟩⟩
      | error x =>
        rcases x with _ | ⟨message, _ | _⟩ | _
        · exact again
        · refine ⟨sound, (hrec.succeeded dep.name s₁).calls.trans hcalls, Or.inl ⟨⟨rfl, ?_⟩, hsound⟩⟩
          exact fun _ h => by cases h
        · exact again
        · exact again

/-- The two walks are the same, and serve a stream that has text, if any. -/
def SameWalkText (o o' : List (String × Outcome) × Ending Opening × Scene) : Prop :=
  o = o' ∧ ∀ dep first, o.2.1 = .served dep first → ¬Hollow first

/-- The walk serves a hollow stream. -/
def HollowWalk (o : List (String × Outcome) × Ending Opening × Scene) : Prop :=
  ∃ dep first, o.2.1 = .served dep first ∧ Hollow first

theorem walk_departs (hrec : SparesCalls rec) {adapters : String → Bool} {chain : List Deployment} : ∀ s : Scene,
    let o := walk replica rec self.faults self.firstOf adapters chain s
    let o' := walk replica rec self.faults self.textOf adapters chain s
    self.Departs s o'.2.2 (SameWalkText o o') (HollowWalk o) := by
  induction chain with
  | nil => exact fun s => .together rfl ⟨rfl, fun _ _ h => by cases h⟩
  | cons dep chain ih =>
    intro s
    dsimp only
    rw [walk, walk]
    have hask : ((s.create replica dep.name).ask replica dep.name .allowRequest).2.calls = s.calls := rfl
    generalize (s.create replica dep.name).ask replica dep.name .allowRequest = o at hask
    obtain ⟨allowed, s₁⟩ := o
    have hask : s₁.calls = s.calls := hask
    cases allowed with
    | false =>
      exact (ih s₁).of_calls hask fun h =>
        ⟨congrArg (fun o => ((dep.name, Outcome.skippedCircuitOpen) :: o.1, o.2)) h.1, h.2⟩
    | true =>
      cases adapters dep.provider with
      | false => exact .together hask ⟨rfl, fun _ _ h => by cases h⟩
      | true =>
        simp only [if_true]
        obtain ⟨new, hnew, hvisit⟩ := @visit_departs self dep replica rec hrec (dep.maxRetries + 1) s₁
        rw [hask] at hnew
        rcases hvisit with ⟨⟨hsame, htext⟩, hsound⟩ | ⟨⟨first, hf, hh⟩, c, hc, hm⟩
        · rw [hsame] at htext ⊢
          generalize visit replica rec self.faults self.textOf dep (dep.maxRetries + 1) s₁ = v at hnew htext
          obtain ⟨outcomes, ending, s₂⟩ := v
          have hnew : s₂.calls = s.calls ++ new := hnew
          cases ending with
          | answered first =>
            exact ⟨new, hnew, Or.inl ⟨⟨rfl, fun _ _ h => by cases h; exact htext _ rfl⟩, hsound⟩⟩
          | rejected message => exact ⟨new, hnew, Or.inl ⟨⟨rfl, fun _ _ h => by cases h⟩, hsound⟩⟩
          | gaveUp =>
            refine (ih s₂).after hnew hsound (fun h => ?_) id
            exact ⟨congrArg (fun o => (outcomes.map (Prod.mk dep.name) ++ o.1, o.2)) h.1, h.2⟩
        · -- The router takes the hollow stream for an answer; the walk goes on, and only calls more.
          generalize visit replica rec self.faults self.firstOf dep (dep.maxRetries + 1) s₁ = v at hf
          obtain ⟨outcomes, ending, s₂⟩ := v
          cases hf
          generalize visit replica rec self.faults self.textOf dep (dep.maxRetries + 1) s₁ = v at hnew
          obtain ⟨outcomes', ending', s₃⟩ := v
          have hnew : s₃.calls = s.calls ++ new := hnew
          have hollow : HollowWalk (outcomes.map (Prod.mk dep.name), .served dep first, s₂) := ⟨dep, first, rfl, hh⟩
          cases ending' with
          | answered first' => exact ⟨new, hnew, Or.inr ⟨hollow, c, hc, hm⟩⟩
          | rejected message => exact ⟨new, hnew, Or.inr ⟨hollow, c, hc, hm⟩⟩
          | gaveUp =>
            obtain ⟨more, hmore⟩ := @walk_calls Opening replica rec self.faults self.textOf hrec adapters chain s₃
            refine ⟨new ++ more, ?_, Or.inr ⟨hollow, c, List.mem_append_left _ hc, hm⟩⟩
            rw [← List.append_assoc, ← hnew]
            exact hmore.symm

end

/-- What streaming a request, opened and drained, is to do: an interruption comes after some text, and until
    there is text a deployment that fails is a failed attempt like any other. -/
structure FallsBackUntilText (rec : Recording) (request : ChatRequest)
    (walk : List (String × Outcome) × Ending Opening × Scene) (out : Except Exn OpenStream × Scene) : Prop where
  interrupted : ∀ message dep delivered, out.1 = .error (.streamInterrupted message dep delivered) → delivered ≠ ""
  fallsBack : Streamed rec request walk out.1 out.2

theorem Streamed.of_interrupted {rec : Recording} {request : ChatRequest}
    {o : List (String × Outcome) × Ending Opening × Scene} {r : Except Exn OpenStream} {message name delivered : String}
    (h : Streamed rec request o r s) (hr : r = .error (.streamInterrupted message name delivered)) :
    ∃ dep first, o.2.1 = .served dep first ∧ delivered = first.1.content ++ contents first.2.1.deltas ∧
      first.2.1.failure ≠ none := by
  obtain ⟨notes, ending, s'⟩ := o
  subst hr
  cases ending with
  | served dep first =>
    obtain ⟨attempts, opened, -, -, hd⟩ := h
    cases hf : first.2.1.failure with
    | none =>
      rw [hf] at hd
      obtain ⟨⟨o', ho, -⟩, -⟩ := hd
      cases ho
    | some f =>
      rw [hf] at hd
      obtain ⟨m, hm, -⟩ := hd
      cases hm
      exact ⟨dep, first, rfl, rfl, by rw [hf]; exact Option.some_ne_none f⟩
  | rejected m =>
    obtain ⟨-, new, -, hr⟩ := h
    cases hr
  | allFailed =>
    obtain ⟨-, new, -, hr⟩ := h
    cases hr
  | noAdapter dep =>
    obtain ⟨-, new, -, hr⟩ := h
    cases hr

theorem Streamed.of_hollow {rec : Recording} {request : ChatRequest}
    {o : List (String × Outcome) × Ending Opening × Scene} {r : Except Exn OpenStream}
    (h : Streamed rec request o r s) (ho : HollowWalk o) :
    ∃ message name, r = .error (.streamInterrupted message name "") := by
  obtain ⟨notes, ending, s'⟩ := o
  obtain ⟨dep, first, rfl, htext, hfails⟩ := ho
  obtain ⟨attempts, opened, -, -, hd⟩ := h
  obtain ⟨f, hf⟩ := Option.ne_none_iff_exists'.mp hfails
  rw [hf, htext] at hd
  obtain ⟨m, hm, -⟩ := hd
  exact ⟨m, _, hm⟩

/-- The calls to providers between two scenes. -/
def callsBetween (s s' : Scene) : List (Deployment × Answer) := s'.calls.drop s.calls.length

theorem fallsBackUntilText_iff (request : ChatRequest) (config : Option RoutingConfig) (chain : List Deployment)
    (hchain : self.chainOf request config = some chain) (reachable : Bool) (s : Scene) :
    FallsBackUntilText (self.recording reachable) request (self.walks reachable self.textOf chain s)
        (((self.openStream request config).bind self.drain).run (answer reachable) s) ↔
      ∀ c ∈ callsBetween s (self.walks reachable self.textOf chain s).2.2, ¬self.MeetsHollow c := by
  have hstream := @streamed_ends self reachable s request config chain hchain
  unfold Ends at hstream
  have hspares : Spares s (self.prepared reachable chain s) := prepare_goes.2
  obtain ⟨new, hnew, h⟩ := @walk_departs self self.replica (self.recording reachable) recording_spares
    self.hasAdapter chain (self.prepared reachable chain s)
  have hcalls : callsBetween s (self.walks reachable self.textOf chain s).2.2 = new := by
    unfold callsBetween walks
    rw [hnew, hspares.calls, List.drop_left]
  rw [hcalls]
  rcases h with ⟨⟨hsame, htext⟩, hsound⟩ | ⟨hollow, c, hc, hm⟩
  · refine ⟨fun _ => hsound, fun _ => ⟨fun message dep delivered hr hempty => ?_, ?_⟩⟩
    · obtain ⟨dep, first, hserved, rfl, hfails⟩ := hstream.of_interrupted hr
      exact htext dep first hserved ⟨hempty, hfails⟩
    · have hwalks : self.walks reachable self.firstOf chain s = self.walks reachable self.textOf chain s := hsame
      exact hwalks ▸ hstream
  · refine ⟨fun h => ?_, fun h => absurd hm (h c hc)⟩
    obtain ⟨message, name, hr⟩ := hstream.of_hollow hollow
    exact absurd rfl (h.interrupted message name "" hr)

namespace Fallback

/-- The first provider opens its stream with a delta that only names a role, and then fails. -/
def roleOnly : Scene where
  breakers := fun _ _ => breaker
  ticks := fun _ => 0
  monotonic := fun _ => 0
  answers := fun
    | 0 => { whole := .ok hello, script := ⟨[{ content := "" }], some (.provider "503" true)⟩ }
    | _ => { whole := .ok hello, script := ⟨[{ content := "hello back" }], none⟩ }

theorem not_fallsBackUntilText : ¬FallsBackUntilText (router.recording false) request
    (router.walks false router.textOf [primary, secondary] roleOnly)
    (((router.openStream request none).bind router.drain).run (answer false) roleOnly) := by
  intro h
  exact h.interrupted "ProviderError: 503" "primary" "" rfl rfl

theorem text_falls_back : FallsBackUntilText (router.recording false) request
    (router.walks false router.textOf [primary, secondary] scene)
    (((router.openStream request none).bind router.drain).run (answer false) scene) := by
  refine (fallsBackUntilText_iff request none [primary, secondary] rfl false scene).mpr ?_
  have hcalls : callsBetween scene (router.walks false router.textOf [primary, secondary] scene).2.2 =
      [(primary, scene.answers.head), (secondary, scene.answers.tail.head)] := rfl
  rw [hcalls]
  rintro c (_ | ⟨_, _ | ⟨_, ⟨⟩⟩⟩) ⟨first, hf, hh⟩
  · cases hf
  · cases hf
    exact hh.2 rfl

end Fallback

end NexusGate.Gateway.LLMRouter
