import NexusGate.Gateway.Pool

/-! # Requests and the gauges they are to set

Once a breaker has been told of an outcome the gauge of its deployment is set by hand, after what Redis is told. A
request that has the gauge in hand does nothing else before. -/

namespace NexusGate.Gateway.Router
open Async Redis System

/-- What a request has in hand: it has asked a provider that refused it, it is recording a failure that has not
    opened the circuit, it has told the breaker of an outcome and the gauge is not set yet, or it was cancelled there. -/
inductive Duty
  | free
  | refused
  | failing (name : String)
  | owes (name : String) (up : Bool)
  | dropped (name : String) (up : Bool)
  deriving DecidableEq

namespace Duty

/-- An operation with its answer, and what the request has in hand after it. -/
def after (g : Duty) (e : Op) (r : Except Exn e.Reply) : Duty :=
  match g, e, r with
  | .refused, _, _ => .refused
  | .owes name up, .redis _, .error .cancelled => .dropped name up
  | .owes name up, .redis _, _ => .owes name up
  | .dropped name up, .redis _, _ => .dropped name up
  | .failing name, .redis _, _ => .failing name
  | .failing name, .breaker _ n (.adopt .opened _), _ => if n = name then .owes name true else .free
  | _, .breaker _ name .recordSuccess, _ => .owes name false
  | _, .breaker _ name .recordFailure, .ok true => .owes name true
  | _, .breaker _ name .recordFailure, _ => .failing name
  | _, .complete _ _, .ok (.error (.provider _ false)) => .refused
  | _, .stream _ _, .ok ⟨[], some (.provider _ false)⟩ => .refused
  | _, _, _ => .free

/-- The request does not owe a gauge. -/
def idle : Duty → Bool
  | .owes _ _ => false
  | _ => true

/-- The request has not been refused either. -/
def calm : Duty → Bool
  | .free | .failing _ | .dropped _ _ => true
  | _ => false

/-- The gauge that is to be set after what the request has told a breaker, and whether it is to be up. -/
def gauge : Duty → Option (String × Bool)
  | .owes name up | .dropped name up => some (name, up)
  | _ => none

end Duty

/-- An answer that may come. -/
def Fits (e : Op) (r : Except Exn e.Reply) : Prop := ∃ choice s o, exec e choice s = some o ∧ o.1 = r

/-- Operations that leave a request with nothing in hand as it is. -/
def Op.quiet : Op → Prop
  | .breaker _ _ .recordSuccess | .breaker _ _ .recordFailure | .complete _ _ | .stream _ _ | .gauge _ _ _ => False
  | _ => True

/-- The same for a request that is recording a failure. -/
def Op.still : Op → Prop
  | .breaker _ _ (.adopt _ _) => False
  | e => e.quiet

/-- Operations that set no gauge. -/
def Op.silent (e : Op) : Prop := ∀ replica name up, e ≠ .gauge replica name up

theorem silent_of_quiet {e : Op} (he : e.quiet) : e.silent := by
  rintro replica name up rfl
  exact he

theorem quiet_of_still {e : Op} (he : e.still) : e.quiet := by
  cases e with
  | breaker _ _ m => cases m <;> trivial
  | _ => exact he

theorem after_free {e : Op} {r : Except Exn e.Reply} (he : e.quiet) : Duty.free.after e r = .free := by
  cases e with
  | breaker _ _ m => cases m <;> first | rfl | exact he.elim
  | complete _ _ | stream _ _ | gauge _ _ _ => exact he.elim
  | _ => rfl

theorem after_calm {g : Duty} {e : Op} {r : Except Exn e.Reply} (he : e.still) (hg : g.calm = true) :
    (g.after e r).calm = true := by
  cases g with
  | free => rw [after_free (quiet_of_still he)]; rfl
  | failing name | dropped name up =>
    cases e with
    | breaker _ _ m => cases m <;> first | rfl | exact he.elim
    | complete _ _ | stream _ _ | gauge _ _ _ => exact he.elim
    | _ => rfl
  | _ => cases hg

theorem ne_owes {g : Duty} (hg : g.idle = true) {name : String} {up : Bool} : g ≠ .owes name up := by
  rintro rfl
  cases hg

theorem idle_of_calm {g : Duty} (hg : g.calm = true) : g.idle = true := by
  cases g <;> first | rfl | cases hg

end NexusGate.Gateway.Router

namespace NexusGate.Gateway.LLMRouter
open Async Redis Router System
variable {self : LLMRouter}

/-! ### What a request hands out -/

/-- A request that owes a gauge does nothing but talk to Redis and set it; and a gauge is only ever set to what the
    request has told the breaker. -/
def herald (self : LLMRouter) : Monitor Op Op.Reply Exn Duty where
  may g e := (∀ name up, g = .owes name up → (∃ c, e = .redis c) ∨ e = .gauge self.replica name up) ∧
    ∀ replica name up, e = .gauge replica name up → replica = self.replica ∧ g.gauge = some (name, up)
  next g e r g' := g' = g.after e r ∧ Fits e r

theorem may_of_idle {g : Duty} {e : Op} (hg : g.idle = true) (he : e.silent) :
    self.herald.may g e :=
  ⟨fun _ _ hname => (ne_owes hg hname).elim, fun replica name up h => absurd h (he replica name up)⟩

theorem may_redis {g : Duty} {c : Cmd Int} : self.herald.may g (.redis c) := ⟨fun _ _ _ => .inl ⟨c, rfl⟩, nofun⟩

theorem may_gauge {g : Duty} {name : String} {up : Bool} (hg : g = .owes name up ∨ g = .dropped name up) :
    self.herald.may g (.gauge self.replica name up) := by
  refine ⟨fun n up' hn => ?_, fun replica n up' he => ?_⟩
  · rcases hg with rfl | rfl <;> cases hn
    exact .inr rfl
  · cases he
    rcases hg with rfl | rfl <;> exact ⟨rfl, rfl⟩

section
variable {α β : Type} {p : Program α}

/-- A part of a request that begins and ends with no gauge in hand. -/
def Keeps (self : LLMRouter) (p : Program α) : Prop :=
  ∀ g : Duty, g.calm = true → Follows self.herald (fun _ g' => g'.calm = true) p g

theorem keeps_of_hands (hp : Hands Op.still p) : self.Keeps p := fun _ hg =>
  hp.follows (M := self.herald) (I := fun g => g.calm = true)
    (fun _ _ hg he => may_of_idle (idle_of_calm hg) (silent_of_quiet (quiet_of_still he)))
    (fun g e r g' hg he hn => by rw [hn.1]; exact after_calm he hg) (fun _ _ hg => hg) hg

namespace Keeps

theorem ret {a : α} : self.Keeps (.ret a : Program α) := fun _ hg => hg

theorem bind {f : α → Program β} (hp : self.Keeps p) (hf : ∀ a, self.Keeps (f a)) : self.Keeps (p.bind f) := fun g hg =>
  Follows.bind (hp g hg) (fun a g' hg' => hf a g' hg') fun _ _ hg' => hg'

theorem attempt (hp : self.Keeps p) : self.Keeps p.attempt := fun g hg => Follows.attempt_iff.mpr (hp g hg)

end Keeps

/-- The request goes on with no gauge in hand, or raises and owes none. -/
def Released {α : Type} (r : Except Exn α) (g : Duty) : Prop :=
  match r with
  | .ok _ => g.calm = true
  | .error _ => g.idle = true

/-- A request that comes in calm is released when the program ends. -/
def Settles (self : LLMRouter) (p : Program α) : Prop :=
  ∀ g : Duty, g.calm = true → Follows self.herald Released p g

theorem Settles.follows (hp : self.Settles p) {g : Duty} (hg : g.calm = true) : Follows self.herald Released p g := hp g hg

theorem Keeps.settles (hp : self.Keeps p) : self.Settles p := fun g hg => (hp g hg).mono fun r g' hg' => by
  cases r with
  | ok _ => exact hg'
  | error _ => exact idle_of_calm hg'

theorem Settles.bind {f : α → Program β} (hp : self.Settles p) (hf : ∀ a, self.Settles (f a)) : self.Settles (p.bind f) :=
  fun g hg => Follows.bind (hp g hg) (fun a g' hg' => hf a g' hg') fun _ _ hg' => hg'

/-- A request that was refused stays so. -/
theorem refused_follows (hp : Hands Op.silent p) :
    Follows self.herald (fun _ g' => g' = .refused) p .refused :=
  hp.follows (M := self.herald) (I := fun g => g = .refused) (fun _ _ hg he => may_of_idle (by rw [hg]; rfl) he)
    (fun g e r g' hg _ hn => by rw [hn.1, hg]; rfl) (fun _ _ hg => hg) rfl

end

/-! ### Recording an outcome -/

/-- Redis is asked with a gauge in hand; the request goes on to set it, unless it is cancelled there. -/
def Bears (name : String) (up : Bool) (g : Duty) {α : Type} (r : Except Exn α) (g' : Duty) : Prop :=
  (g' = .owes name up ∨ g' = .dropped name up) ∧ (g = .dropped name up → g' = .dropped name up) ∧
    (r = .error .cancelled → g' = .dropped name up)

theorem owed_redis {name : String} {up : Bool} {c : Cmd Int} {g : Duty} (hg : g = .owes name up ∨ g = .dropped name up) :
    Follows self.herald (Bears name up g) (redis c) g := by
  refine Follows.call_iff.mpr ⟨may_redis, fun r g' hn => ?_⟩
  obtain ⟨rfl, -⟩ := hn
  rcases hg with rfl | rfl
  · by_cases hr : r = .error .cancelled
    · subst hr
      exact ⟨.inr rfl, nofun, fun _ => rfl⟩
    · refine ⟨.inl ?_, nofun, fun h => absurd h hr⟩
      cases r with
      | ok _ => rfl
      | error x => cases x <;> first | rfl | exact absurd rfl hr
  · exact ⟨.inr rfl, fun _ => rfl, fun _ => rfl⟩

theorem owed_pipeline {name : String} {up : Bool} : ∀ {cs : List (Cmd Int)} {g : Duty},
    g = .owes name up ∨ g = .dropped name up → Follows self.herald (Bears name up g) (pipeline cs) g
  | [], _, hg => ⟨hg, id, nofun⟩
  | c :: cs, g, hg => by
    refine Follows.bind_iff.mpr (Follows.attempt_iff.mpr ((owed_redis hg).mono fun first g₁ h₁ => ?_))
    have hrest := @owed_pipeline name up cs g₁ h₁.1
    refine Follows.bind_iff.mpr (Follows.attempt_iff.mpr (hrest.mono fun others g₂ h₂ => ?_))
    have hdropped : g = .dropped name up → g₂ = .dropped name up := fun h => h₂.2.1 (h₁.2.1 h)
    refine Follows.bind_iff.mpr (Follows.ofExcept_iff.mpr ?_)
    cases first with
    | error x => exact ⟨h₂.1, hdropped, fun hx => h₂.2.1 (h₁.2.2 (by cases hx; rfl))⟩
    | ok reply =>
      refine Follows.bind_iff.mpr (Follows.ofExcept_iff.mpr ?_)
      cases others with
      | error x => exact ⟨h₂.1, hdropped, fun hx => h₂.2.2 (by cases hx; rfl)⟩
      | ok replies => exact ⟨h₂.1, hdropped, nofun⟩

/-- What the request bears, or it raises because it was cancelled. -/
def Bore (name : String) (up : Bool) {α : Type} (r : Except Exn α) (g : Duty) : Prop :=
  (g = .owes name up ∨ g = .dropped name up) ∧ ∀ x, r = .error x → g = .dropped name up

theorem owed_caught {α : Type} {p : Program α} {name : String} {up : Bool} {g : Duty}
    (hp : Follows self.herald (Bears name up g) p g) : Follows self.herald (Bore name up) (caught p) g := by
  refine Follows.bind_iff.mpr (Follows.attempt_iff.mpr (hp.mono fun r g' h => ?_))
  cases r with
  | ok a => exact ⟨h.1, nofun⟩
  | error x =>
    show Follows _ _ (ite _ _ _) g'
    split
    · exact ⟨h.1, nofun⟩
    · rename_i hx
      have hcancelled : x = .cancelled := by cases x <;> first | rfl | exact absurd rfl hx
      subst hcancelled
      exact ⟨h.1, fun _ _ => h.2.2 rfl⟩

theorem owed_publishOpen {cluster : ClusterBreakers} {name : String} {up : Bool} :
    Follows self.herald (Bore name up) (cluster.publishOpen name) (.owes name up) :=
  (owed_caught (owed_pipeline (.inl rfl))).bind (fun _ _ h => ⟨h.1, nofun⟩) fun _ _ h => ⟨h.1, fun _ _ => h.2 _ rfl⟩

/-- What a breaker answers. -/
theorem fits_breaker {replica : Nat} {name : String} {m : CircuitBreaker.Method} {r : Except Exn m.Reply}
    (h : Fits (.breaker replica name m) r) : ∃ a, r = .ok a := by
  obtain ⟨choice, s, o, ho, rfl⟩ := h
  cases choice <;> cases ho
  exact ⟨_, rfl⟩

/-- While a failure is being recorded that has not opened the circuit. -/
theorem failing_hands {α : Type} {p : Program α} {name : String} (hp : Hands (fun e => ∃ c, e = .redis c) p) :
    Follows self.herald (fun _ g' => g' = .failing name) p (.failing name) :=
  hp.follows (M := self.herald) (I := fun g => g = .failing name)
    (fun _ _ _ he => by
      obtain ⟨c, rfl⟩ := he
      exact may_redis)
    (fun g e r g' hg he hn => by
      obtain ⟨c, rfl⟩ := he
      rw [hn.1, hg]
      rfl) (fun _ _ hg => hg) rfl

theorem failing_publishOpen {cluster : ClusterBreakers} {name : String} :
    Follows self.herald (fun _ g' => g' = .failing name) (cluster.publishOpen name) (.failing name) :=
  failing_hands ((hands_caught (pipeline_hands fun c _ => ⟨c, rfl⟩)).bind fun _ => trivial)

/-- A failure is recorded. If it opened the circuit the gauge is to be set. -/
theorem failed_follows {name : String} {g : Duty} (hg : g.calm = true) :
    Follows self.herald (fun r g' => match r with
      | .ok true => g' = .owes name true ∨ g' = .dropped name true
      | _ => g'.calm = true) (self.failed name) g := by
  have hrecord : Follows self.herald (fun r g' => ∃ opened, r = .ok opened ∧
      g' = if opened then .owes name true else .failing name) (breaker self.replica name .recordFailure) g := by
    refine Follows.call_iff.mpr ⟨may_of_idle (idle_of_calm hg) nofun, fun r g' hn => ?_⟩
    obtain ⟨rfl, hfits⟩ := hn
    obtain ⟨opened, rfl⟩ := fits_breaker hfits
    refine ⟨opened, rfl, ?_⟩
    cases g <;> first | (cases opened <;> rfl) | cases hg
  unfold failed
  split
  · rename_i cluster _
    refine hrecord.bind (fun opened g₁ h => ?_) fun x g₁ h => ?_
    · obtain ⟨_, ho, rfl⟩ := h
      cases ho
      cases opened with
      | true =>
        refine owed_publishOpen.bind (fun _ g₂ h₂ => h₂.1) fun x g₂ h₂ => ?_
        rw [h₂.2 x rfl]
        rfl
      | false =>
        refine (failing_hands (hands_caught (pipeline_hands fun c _ => ⟨c, rfl⟩))).bind (fun o g₂ h₂ => ?_)
          fun x g₂ h₂ => by rw [h₂]; rfl
        obtain rfl : g₂ = .failing name := h₂
        split
        · show Follows _ _ (ite _ _ _) _
          split
          · refine failing_publishOpen.bind (fun _ g₃ h₃ => ?_) fun x g₃ h₃ => by rw [h₃]; rfl
            obtain rfl : g₃ = .failing name := h₃
            refine Follows.bind_iff.mpr (Follows.call_iff.mpr ⟨may_of_idle rfl nofun, fun r g₄ hn => ?_⟩)
            obtain ⟨rfl, hfits⟩ := hn
            obtain ⟨a, rfl⟩ := fits_breaker hfits
            exact .inl (if_pos rfl)
          · rfl
        · rfl
    · obtain ⟨_, ho, -⟩ := h
      cases ho
  · refine hrecord.mono fun r g' h => ?_
    obtain ⟨opened, rfl, rfl⟩ := h
    cases opened with
    | true => exact .inl rfl
    | false => rfl

theorem noteFailure_keeps {name : String} : self.Keeps (self.noteFailure name) := by
  intro g hg
  refine (failed_follows hg).bind (fun opened g' h => ?_) fun x g' h => h
  show Follows _ _ (ite _ _ _) g'
  split
  · rename_i hopened
    subst hopened
    refine Follows.call_iff.mpr ⟨may_gauge h, fun r g₂ hn => ?_⟩
    rw [hn.1]
    rcases h with rfl | rfl <;> rfl
  · cases opened with
    | true => exact absurd rfl ‹_›
    | false => exact h

/-- A success is recorded: the gauge is to be set. -/
theorem succeeded_follows {name : String} {g : Duty} (hg : g.calm = true) :
    Follows self.herald (Bore name false) (self.succeeded name) g := by
  have hrecord : Follows self.herald (fun r g' => ∃ a, r = .ok a ∧ g' = .owes name false)
      (breaker self.replica name .recordSuccess) g := by
    refine Follows.call_iff.mpr ⟨may_of_idle (idle_of_calm hg) nofun, fun r g' hn => ?_⟩
    obtain ⟨rfl, hfits⟩ := hn
    obtain ⟨a, rfl⟩ := fits_breaker hfits
    refine ⟨a, rfl, ?_⟩
    cases g <;> first | rfl | cases hg
  unfold succeeded
  split
  · refine hrecord.bind (fun _ g₁ h => ?_) fun x g₁ h => ?_
    · obtain ⟨_, -, rfl⟩ := h
      exact (owed_caught (owed_redis (.inl rfl))).bind (fun _ _ h => ⟨h.1, nofun⟩) fun _ _ h => ⟨h.1, fun _ _ => h.2 _ rfl⟩
    · obtain ⟨_, ho, -⟩ := h
      cases ho
  · refine hrecord.mono fun r g' h => ?_
    obtain ⟨a, rfl, rfl⟩ := h
    exact ⟨.inl rfl, nofun⟩

theorem noteSuccess_keeps {name : String} : self.Keeps (self.noteSuccess name) := by
  intro g hg
  refine (succeeded_follows hg).bind (fun _ g' h => ?_) fun x g' h => by rw [h.2 x rfl]; rfl
  refine Follows.call_iff.mpr ⟨may_gauge h.1, fun r g₂ hn => ?_⟩
  rw [hn.1]
  rcases h.1 with rfl | rfl <;> rfl

/-! ### Asking a provider -/

/-- How an exception leaves a request: one that says that the request is bad comes after a refusal. -/
def LeftBy (x : Exn) (g : Duty) : Prop :=
  match x with
  | .providerError _ false => g = .refused
  | .cancelled => g.idle = true
  | _ => g.calm = true

/-- How asking a provider leaves a request. -/
def Asked {α : Type} (r : Except Exn α) (g : Duty) : Prop :=
  match r with
  | .ok _ => g.calm = true
  | .error x => LeftBy x g

/-- A part of a request that asks a provider. -/
def Asks (self : LLMRouter) {α : Type} (p : Program α) : Prop :=
  ∀ g : Duty, g.calm = true → Follows self.herald Asked p g

section
variable {dep : Deployment} {request : ChatRequest}

theorem caught_asks {α : Type} {p : Program α} {g : Duty} (hp : Follows self.herald Asked p g) :
    Follows self.herald (fun (r : Except Exn (Except Exn α)) g' => match r with
      | .ok (.ok _) => g'.calm = true
      | .ok (.error x) => x.isException = true ∧ LeftBy x g'
      | .error _ => g'.idle = true) (caught p) g := by
  refine Follows.bind_iff.mpr (Follows.attempt_iff.mpr (hp.mono fun r g' h => ?_))
  cases r with
  | ok a => exact h
  | error x =>
    show Follows _ _ (ite _ _ _) g'
    split
    · rename_i hx
      exact ⟨hx, h⟩
    · rename_i hx
      cases x <;> first | exact h | exact absurd rfl hx

theorem injectFault_asks : self.Asks (self.injectFault dep) := by
  intro g hg
  unfold injectFault
  split
  · refine Follows.call_iff.mpr ⟨may_of_idle (idle_of_calm hg) nofun, fun r g' hn => ?_⟩
    obtain ⟨rfl, choice, s, o, ho, rfl⟩ := hn
    have hcalm : (g.after (.fault dep.name) o.1).calm = true := after_calm trivial hg
    cases choice <;> cases ho
    · exact hcalm
    · exact idle_of_calm hcalm
    · exact hcalm
  · exact hg

/-- What comes back from a provider is waited for, and says whether the request was refused. -/
theorem wait_follows {timeout : ℚ} {g : Duty} (hg : g.idle = true) (hfree : g = .refused ∨ g = .free) :
    Follows self.herald (fun r g' => g' = g ∧ ∀ x, r = .error x → x = .cancelled) (Prog.call (Op.wait timeout)) g := by
  refine Follows.call_iff.mpr ⟨may_of_idle hg nofun, fun r g' hn => ?_⟩
  obtain ⟨rfl, choice, s, o, ho, rfl⟩ := hn
  refine ⟨by rcases hfree with rfl | rfl <;> rfl, fun x hx => ?_⟩
  cases choice <;> cases ho <;> cases hx
  rfl

/-- What is in hand once a provider has failed. -/
def afterFailure : Failure → Duty
  | .provider _ false => .refused
  | _ => .free

theorem afterFailure_cases (f : Failure) : afterFailure f = .refused ∨ afterFailure f = .free := by
  rcases f with _ | ⟨_, _ | _⟩ | _ <;> first | exact .inl rfl | exact .inr rfl

theorem leftBy_afterFailure (f : Failure) : LeftBy f.exn (afterFailure f) := by
  rcases f with _ | ⟨_, _ | _⟩ | _ <;> rfl

theorem callProvider_asks : self.Asks (self.callProvider dep request) := by
  intro g hg
  refine Follows.bind_iff.mpr (Follows.call_iff.mpr ⟨may_of_idle (idle_of_calm hg) nofun, fun r g₁ hn => ?_⟩)
  obtain ⟨rfl, choice, s, o, ho, rfl⟩ := hn
  cases choice <;> cases ho
  rename_i answer
  have hanswer : g.after (.complete dep request) (.ok answer) = match answer with
      | .ok _ => .free
      | .error f => afterFailure f := by
    rcases answer with (_ | ⟨_, _ | _⟩ | _) | _ <;> cases g <;> first | rfl | cases hg
  rw [hanswer]
  cases answer with
  | ok response =>
    refine (wait_follows rfl (.inr rfl)).bind (fun _ g₂ h => ?_) fun x g₂ h => ?_
    · rw [h.1]
      rfl
    · obtain rfl := h.2 x rfl
      rw [h.1]
      rfl
  | error f =>
    have hidle : (afterFailure f).idle = true := by rcases afterFailure_cases f with h | h <;> rw [h] <;> rfl
    refine (wait_follows hidle (afterFailure_cases f)).bind (fun _ g₂ h => ?_) fun x g₂ h => ?_
    · rw [h.1]
      exact leftBy_afterFailure f
    · obtain rfl := h.2 x rfl
      rw [h.1]
      exact hidle

/-- What is in hand once a stream has been started. -/
def afterScript : Script → Duty
  | ⟨[], some f⟩ => afterFailure f
  | _ => .free

theorem after_stream {script : Script} {g : Duty} (hg : g.calm = true) :
    g.after (.stream dep request) (.ok script) = afterScript script := by
  obtain ⟨_ | _, _ | _ | ⟨_, _ | _⟩ | _⟩ := script <;> cases g <;> first | rfl | cases hg

theorem nextDelta_asks {script : Script} : Follows self.herald Asked (self.nextDelta dep script) (afterScript script) := by
  have hcases : afterScript script = .refused ∨ afterScript script = .free := by
    obtain ⟨_ | _, _ | f⟩ := script <;> first | exact .inr rfl | exact afterFailure_cases f
  have hidle : (afterScript script).idle = true := by rcases hcases with h | h <;> rw [h] <;> rfl
  refine (wait_follows hidle hcases).bind (fun _ g₂ h => ?_) fun x g₂ h => ?_
  · rw [h.1]
    obtain ⟨_ | _, _ | f⟩ := script <;> first | rfl | exact leftBy_afterFailure f
  · obtain rfl := h.2 x rfl
    rw [h.1]
    exact hidle

theorem firstDelta_asks {adapter : Adapter} {g : Duty} (hg : g.calm = true) :
    Follows self.herald (fun (r : Except Exn (Except (Exn × Bool) (StreamDelta × Script × Bool))) g' => match r with
      | .ok (.ok _) => g'.calm = true
      | .ok (.error (x, _)) => x.isException = true ∧ LeftBy x g'
      | .error _ => g'.idle = true) (self.firstDelta dep request adapter) g := by
  refine (caught_asks (injectFault_asks g hg)).bind (fun o g₁ h => ?_) fun _ _ h => h
  cases o with
  | error e => exact h
  | ok _ =>
    show Follows _ _ (ite _ _ _) g₁
    split
    · refine Follows.bind_iff.mpr (Follows.call_iff.mpr ⟨may_of_idle (idle_of_calm h) nofun, fun r g₂ hn => ?_⟩)
      obtain ⟨rfl, choice, s, o, ho, rfl⟩ := hn
      cases choice <;> cases ho
      rename_i script
      rw [after_stream h]
      refine Follows.bind_iff.mpr ((caught_asks nextDelta_asks).mono fun o g₂ h₂ => ?_)
      match o, h₂ with
      | .ok (.ok (first, iterator)), h₂ => exact h₂
      | .ok (.error e), h₂ => exact h₂
      | .error x, h₂ => exact h₂
    · refine (caught_asks (callProvider_asks g₁ h)).bind (fun o g₂ h₂ => ?_) fun _ _ h₂ => h₂
      cases o with
      | error e => exact h₂
      | ok response => exact h₂

/-! ### The parts of a request -/

theorem call_keeps {e : Op} (he : e.still) : self.Keeps (.call e) := keeps_of_hands (Hands.call he)

theorem backOff_keeps {retry : Nat} : self.Keeps (backOff retry) := by
  unfold backOff
  split
  · exact call_keeps trivial
  · exact .ret

theorem closeIterator_hands {ok : Op → Prop} (hclose : ok .aclose) {opened : Bool} : Hands ok (closeIterator opened) := by
  have haclose : Hands ok (caught (Prog.call Op.aclose)) := hands_caught (Hands.call hclose)
  cases opened with
  | true => exact haclose.bind fun _ => trivial
  | false => trivial

theorem closeIterator_keeps {opened : Bool} : self.Keeps (closeIterator opened) :=
  keeps_of_hands (closeIterator_hands trivial)

/-- What follows a failed call. -/
theorem retry_settles {α : Type} {again : List Attempt → Program (Option α × List Attempt)} {attempts : List Attempt}
    {new : ℚ → Attempt} (ih : ∀ attempts, self.Settles (again attempts)) : self.Settles (do
      let latencyMs ← Prog.call Op.msSince
      self.noteFailure dep.name
      if (← breaker self.replica dep.name .state) = .closed then again (attempts ++ [new latencyMs])
      else return (none, attempts ++ [new latencyMs])) := by
  refine (call_keeps (e := .msSince) trivial).settles.bind fun t => noteFailure_keeps.settles.bind fun _ =>
    (call_keeps (e := .breaker self.replica dep.name .state) trivial).settles.bind fun state => ?_
  show self.Settles (ite _ _ _)
  split
  · exact ih _
  · exact Keeps.ret.settles

/-- Recording a success sets no gauge by itself. -/
theorem succeeded_silent : Hands Op.silent (self.succeeded dep.name) := by
  have record : Hands Op.silent (breaker self.replica dep.name .recordSuccess) := Hands.call nofun
  unfold succeeded
  split
  · have delete (keys : List String) : Hands Op.silent (redis (.del keys)) := Hands.call nofun
    exact record.bind fun _ => (hands_caught (delete _)).bind fun _ => trivial
  · exact record

/-- What follows a refusal. -/
theorem reject_follows {α : Type} {message : String} {attempts : ℚ → List Attempt} :
    Follows self.herald Released (do
      self.succeeded dep.name
      let latencyMs ← Prog.call Op.msSince
      (.throw (.clientRequest message (attempts latencyMs)) : Program α)) .refused := by
  refine (refused_follows succeeded_silent).bind (fun _ g h => ?_) fun _ _ h => by rw [h]; rfl
  obtain rfl : g = .refused := h
  have ask : Hands Op.silent (Prog.call Op.msSince : Program ℚ) := Hands.call nofun
  exact (refused_follows ask).bind (fun _ _ h => by rw [h]; rfl) fun _ _ h => by rw [h]; rfl

theorem callLoop_settles {left : Nat} : ∀ {retry : Nat} {attempts : List Attempt},
    self.Settles (self.callLoop dep request left retry attempts) := by
  induction left with
  | zero => exact Keeps.ret.settles
  | succ left ih =>
    intro retry attempts g hg
    refine Follows.bind (backOff_keeps g hg) (fun _ g₁ hg₁ => ?_) fun _ _ h => idle_of_calm h
    have hask : Follows self.herald Asked (do self.injectFault dep; self.callProvider dep request) g₁ :=
      (injectFault_asks g₁ hg₁).bind (fun _ g₂ h => callProvider_asks g₂ h) fun _ _ h => h
    refine (caught_asks hask).bind (fun r g₂ h => ?_) fun _ _ h => h
    cases r with
    | ok response =>
      refine Settles.follows (Keeps.settles ?_) h
      exact Keeps.bind (call_keeps (e := .msSince) trivial) fun t => noteSuccess_keeps.bind fun _ => .ret
    | error e =>
      cases e with
      | providerError message retryable =>
        cases retryable with
        | true =>
          refine Settles.follows ?_ h.2
          exact retry_settles fun _ => ih
        | false =>
          obtain rfl : g₂ = .refused := h.2
          exact reject_follows
      | cancelled => exact absurd h.1 Bool.false_ne_true
      | _ =>
        refine Settles.follows ?_ h.2
        exact retry_settles fun _ => ih

theorem openLoop_settles {adapter : Adapter} {left : Nat} : ∀ {retry : Nat} {attempts : List Attempt},
    self.Settles (self.openLoop dep request adapter left retry attempts) := by
  induction left with
  | zero => exact Keeps.ret.settles
  | succ left ih =>
    intro retry attempts g hg
    refine Follows.bind (backOff_keeps g hg) (fun _ g₁ hg₁ => ?_) fun _ _ h => idle_of_calm h
    refine (firstDelta_asks hg₁).bind (fun r g₂ h => ?_) fun _ _ h => h
    cases r with
    | ok first =>
      refine Settles.follows (Keeps.settles ?_) h
      exact Keeps.bind (call_keeps (e := .msSince) trivial) fun t => .ret
    | error e =>
      obtain ⟨e, opened⟩ := e
      cases e with
      | providerError message retryable =>
        cases retryable with
        | true =>
          refine Settles.follows ?_ h.2
          exact closeIterator_keeps.settles.bind fun _ => retry_settles fun _ => ih
        | false =>
          obtain rfl : g₂ = .refused := h.2
          have close : Hands Op.silent (closeIterator opened) := closeIterator_hands nofun
          refine (refused_follows close).bind (fun _ g₃ h₃ => ?_) fun _ _ h₃ => by rw [h₃]; rfl
          obtain rfl : g₃ = .refused := h₃
          exact reject_follows
      | cancelled => exact absurd h.1 Bool.false_ne_true
      | _ =>
        refine Settles.follows ?_ h.2
        exact closeIterator_keeps.settles.bind fun _ => retry_settles fun _ => ih

theorem throw_settles {α : Type} {x : Exn} : self.Settles (.throw x : Program α) := fun _ hg => idle_of_calm hg

theorem callWithRetries_settles {attempts : List Attempt} : self.Settles (self.callWithRetries dep request attempts) := by
  unfold callWithRetries
  split
  · exact throw_settles
  · exact callLoop_settles

theorem openWithRetries_settles {attempts : List Attempt} : self.Settles (self.openWithRetries dep request attempts) := by
  unfold openWithRetries
  split
  · exact throw_settles
  · exact openLoop_settles

theorem completeFrom_settles : ∀ {chain : List Deployment} {attempts : List Attempt},
    self.Settles (self.completeFrom request chain attempts)
  | [], _ => throw_settles
  | dep :: chain, attempts => by
    refine (call_keeps (e := .create self.replica dep.name) trivial).settles.bind fun _ =>
      (call_keeps (e := .breaker self.replica dep.name .allowRequest) trivial).settles.bind fun allowed => ?_
    show self.Settles (ite _ _ _)
    split
    · refine callWithRetries_settles.bind fun (response, attempts) => ?_
      cases response with
      | none => exact completeFrom_settles
      | some response => exact Keeps.ret.settles
    · exact completeFrom_settles

theorem openFrom_settles : ∀ {chain : List Deployment} {attempts : List Attempt},
    self.Settles (self.openFrom request chain attempts)
  | [], _ => throw_settles
  | dep :: chain, attempts => by
    refine (call_keeps (e := .create self.replica dep.name) trivial).settles.bind fun _ =>
      (call_keeps (e := .breaker self.replica dep.name .allowRequest) trivial).settles.bind fun allowed => ?_
    show self.Settles (ite _ _ _)
    split
    · refine openWithRetries_settles.bind fun (opened, attempts) => ?_
      cases opened with
      | none => exact openFrom_settles
      | some opened => exact Keeps.ret.settles
    · exact openFrom_settles

/-! ### Reading the shared state -/

section
variable {cluster : ClusterBreakers} {replica : Nat} {name : String}

theorem agreeOn_quiet {openFlag fails : Redis.Reply Int} : Hands Op.quiet (cluster.agreeOn replica name openFlag fails) := by
  have state : Hands Op.quiet (breaker replica name .state) := Hands.call trivial
  have adopt (s : BreakerState) (n : Int) : Hands Op.quiet (breaker replica name (.adopt s n)) := Hands.call trivial
  refine Hands.bind (Hands.call trivial) fun known => ?_
  show Hands _ (ite _ _ _)
  split
  · split
    · exact state.bind fun _ => adopt ..
    · refine state.bind fun s => ?_
      show Hands _ (ite _ _ _)
      split
      · refine Hands.bind (hands_caught (Hands.call trivial)) fun won => ?_
        split <;> (show Hands _ (ite _ _ _); split; exact adopt ..; trivial)
      · split
        · exact state.bind fun _ => adopt ..
        · trivial
  · trivial

theorem agree_quiet : ∀ {names : List String} {results : List (Redis.Reply Int)},
    Hands Op.quiet (cluster.agree replica names results)
  | [], _ => trivial
  | _ :: _, [] => trivial
  | _ :: _, [_] => trivial
  | _ :: _, _ :: _ :: _ => agreeOn_quiet.bind fun _ => agree_quiet

theorem sync_quiet {names : List String} : Hands Op.quiet (cluster.sync replica names) := by
  refine Hands.bind (Hands.call trivial) fun now => Hands.bind (Hands.call trivial) fun syncedAt => ?_
  show Hands _ (ite _ _ _)
  split
  · trivial
  · refine Hands.bind (Hands.call trivial) fun _ => (hands_caught (pipeline_hands fun _ _ => trivial)).bind fun o => ?_
    cases o with
    | error e => trivial
    | ok results => exact agree_quiet

end

theorem createAll_quiet : ∀ {names : List String}, Hands Op.quiet (self.createAll names)
  | [] => trivial
  | _ :: _ => (Hands.call trivial).bind fun _ => createAll_quiet

theorem prepare_quiet {chain : List Deployment} : Hands Op.quiet (self.prepare chain) := by
  unfold prepare
  split
  · trivial
  · exact createAll_quiet.bind fun _ => sync_quiet

theorem syncBreakers_quiet : Hands Op.quiet self.syncBreakers := by
  unfold syncBreakers
  split
  · trivial
  · exact Hands.bind (Hands.call trivial) fun _ => sync_quiet

theorem quiet_follows {α : Type} {p : Program α} (hp : Hands Op.quiet p) :
    Follows self.herald (fun _ g' => g' = .free) p .free :=
  hp.follows (M := self.herald) (I := fun g => g = .free)
    (fun _ _ hg he => may_of_idle (by rw [hg]; rfl) (silent_of_quiet he))
    (fun g e r g' hg he hn => by
      rw [hn.1, hg]
      exact after_free he) (fun _ _ hg => hg) rfl

/-! ### Relaying -/

theorem settleUp_keeps {opened : OpenStream} {text : String} : self.Keeps (self.settleUp opened text) := by
  unfold settleUp
  split
  · exact .ret
  · exact Keeps.bind (call_keeps trivial) fun _ => .ret

theorem leave_keeps {α : Type} {opened : OpenStream} {text : String} {r : Except Exn α} :
    self.Keeps (self.leave opened text r) := by
  refine settleUp_keeps.bind fun opened => closeIterator_keeps.attempt.bind fun o => ?_
  cases o <;> exact .ret

theorem relayEnd_keeps {failure : Option Failure} {delivered : List String} {opened : OpenStream} :
    self.Keeps (self.relayEnd failure delivered opened) := by
  cases failure with
  | none =>
    refine noteSuccess_keeps.attempt.bind fun o => ?_
    cases o <;> exact leave_keeps
  | some failure =>
    refine settleUp_keeps.bind fun opened => noteFailure_keeps.attempt.bind fun o => ?_
    cases o <;> exact leave_keeps

theorem relayLoop_keeps {failure : Option Failure} : ∀ {deltas : List StreamDelta} {delivered : List String} {words : Nat}
    {opened : OpenStream}, self.Keeps (self.relayLoop failure deltas delivered words opened)
  | [], _, _, opened => by
    refine (call_keeps (e := .wait (self.timeoutOf opened.deployment)) trivial).attempt.bind fun o => ?_
    cases o with
    | error e => exact leave_keeps
    | ok _ => exact relayEnd_keeps
  | delta :: deltas, _, _, opened => by
    refine (call_keeps (e := .wait (self.timeoutOf opened.deployment)) trivial).attempt.bind fun o => ?_
    cases o with
    | error e => exact leave_keeps
    | ok _ =>
      show self.Keeps (ite _ _ _)
      split
      · exact relayLoop_keeps
      · exact .ret

theorem relayNext_keeps {opened : OpenStream} : self.Keeps (self.relayNext opened) := by
  unfold relayNext
  split
  · exact relayLoop_keeps
  · exact relayLoop_keeps
  · exact .ret

theorem relayClose_keeps {opened : OpenStream} : self.Keeps (self.relayClose opened) := by
  unfold relayClose
  split
  · exact .ret
  · exact leave_keeps
  · exact .ret

theorem throw_keeps {α : Type} {x : Exn} : self.Keeps (.throw x : Program α) := fun _ hg => hg

theorem consume_keeps : ∀ {chunks : Nat} {opened : OpenStream}, self.Keeps (self.consume chunks opened)
  | 0, _ => by
    refine (call_keeps (e := .hangUp) trivial).bind fun _ => relayClose_keeps.bind fun (r, opened) => ?_
    cases r with
    | ok _ => exact .ret
    | error e => exact throw_keeps
  | chunks + 1, _ => by
    refine relayNext_keeps.bind fun (r, opened) => ?_
    match r with
    | .ok (some _) => exact consume_keeps
    | .ok none => exact .ret
    | .error e => exact throw_keeps

/-! ### Whole requests -/

theorem prepared_follows {chain : List Deployment} {α : Type} {p : Program α} (hp : self.Settles p) :
    Follows self.herald Released ((self.prepare chain).bind fun _ => p) .free :=
  (quiet_follows prepare_quiet).bind (fun _ g h => hp g (by rw [h]; rfl)) fun _ g h => by rw [h]; rfl

theorem complete_follows {config : Option RoutingConfig} :
    Follows self.herald Released (self.complete request config) .free := by
  unfold complete
  split
  · rfl
  · exact prepared_follows completeFrom_settles

theorem openStream_follows {config : Option RoutingConfig} :
    Follows self.herald Released (self.openStream request config) .free := by
  unfold openStream
  split
  · rfl
  · exact prepared_follows openFrom_settles

theorem streamed_follows {config : Option RoutingConfig} {chunks : Nat} :
    Follows self.herald Released (self.streamed request config chunks) .free :=
  openStream_follows.bind (fun _ g h => consume_keeps.settles g h) fun _ _ h => h

end

/-- The requests of a router, each with what it has in hand. -/
def bearers (self : LLMRouter) : Watch (requests self) where
  G := Duty
  monitor _ := self.herald
  first _ := .free
  last _ _ g := g.idle = true

theorem bearers_sound : (bearers self).Sound := by
  have idle {α : Type} {r : Except Exn α} {g : Duty} (h : Released r g) : g.idle = true := by
    cases r with
    | ok _ => exact idle_of_calm h
    | error _ => exact h
  intro c
  cases c with
  | complete request config => exact Follows.map (complete_follows.mono fun _ _ => idle)
  | streamed request config chunks => exact Follows.map (streamed_follows.mono fun _ _ => idle)
  | syncBreakers => exact Follows.map ((quiet_follows syncBreakers_quiet).mono fun _ _ h => by rw [h]; rfl)

end NexusGate.Gateway.LLMRouter
