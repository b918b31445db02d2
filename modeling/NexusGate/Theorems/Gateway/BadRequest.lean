import NexusGate.Gateway.Pool
import NexusGate.Theorems.Gateway.Walk

/-! # Bad requests

What a `ProviderError` that is not retryable does to the breaker of its deployment. A provider can raise one from
`complete`, before the first delta of a stream, and while the stream is relayed; each place has a handler of its
own. Other requests may do anything between two operations of the handler, so that every operation is judged by
what it finds and what it leaves. -/

namespace NexusGate.Gateway.Router
open Async Redis

/-- What the replicas have counted together. -/
def State.pooledFailures (s : State) (name : String) : Int :=
  match value? s.time s.store (failsKey name) with
  | some (.str n) => n
  | _ => 0

/-- The surroundings in which an operation comes, and what they decide there. No count is ever below 0. -/
structure Moment where
  site : Site
  choose : Op → Choice
  fits : ∀ e, (exec e (choose e) site).isSome = true
  counted : ∀ replica name, 0 ≤ (site.breakers replica name).consecutiveFailures
  pooled : ∀ name, 0 ≤ site.pooledFailures name

/-- What the environment answers to an operation at a moment, and where it leaves the site. -/
def Moment.answer (m : Moment) (e : Op) : Except Exn e.Reply × Site := (exec e (m.choose e) m.site).get (m.fits e)

theorem Moment.exec_answer (m : Moment) (e : Op) : exec e (m.choose e) m.site = some (m.answer e) :=
  (Option.some_get _).symm

/-- Every operation comes at the next moment, whatever has happened since the one before. -/
def moments : Handler Op Op.Reply Exn (Stream' Moment) := fun e ms => ((ms.head.answer e).1, ms.tail)

/-- The deployment has no more failures than before, and its circuit has not been opened, here or for all. -/
structure Unharmed (replica : Nat) (name : String) (s s' : Site) : Prop where
  failures : (s'.breakers replica name).consecutiveFailures ≤ (s.breakers replica name).consecutiveFailures
  pooled : s'.pooledFailures name ≤ s.pooledFailures name
  circuit : (s'.breakers replica name).state = .opened → (s.breakers replica name).state = .opened
  shared : (live? s'.time s'.store (openKey name)).isSome = true → (live? s.time s.store (openKey name)).isSome = true

theorem Unharmed.refl {replica : Nat} {name : String} {s : Site} : Unharmed replica name s s := ⟨le_rfl, le_rfl, id, id⟩

/-- The operation does the deployment no harm at the moment in which it comes. -/
def Spared (replica : Nat) (name : String) (e : Op) (ms : Stream' Moment) : Prop :=
  Unharmed replica name ms.head.site (ms.head.answer e).2

/-- Operations that count no failure. -/
def Op.harmless : Op → Prop
  | .sleep _ | .fault _ | .complete _ _ | .stream _ _ | .wait _ | .aclose | .msSince => True
  | .breaker _ _ m => m = .recordSuccess
  | .redis c => ∃ keys, c = .del keys
  | _ => False

variable {replica : Nat} {name : String}

theorem live?_eraseAll {now : Nat} {k : String} {keys : List String} {s : Store Int}
    (h : (live? now (keys.foldl (fun s k => s.erase k) s) k).isSome = true) :
    live? now (keys.foldl (fun s k => s.erase k) s) k = live? now s k := by
  obtain ⟨e, he⟩ := Option.isSome_iff_exists.mp h
  obtain ⟨hlookup, hlive⟩ := live?_eq_some.mp he
  rw [he, live?_eq_some.mpr ⟨(lookup_of_eraseAll hlookup).2, hlive⟩]

/-- Deleting keys takes failures away, or leaves them as they are. -/
theorem del_unharmed {keys : List String} {s : Site} (hs : 0 ≤ s.pooledFailures name) :
    Unharmed replica name s (s.redis (.del keys)).2 := by
  refine ⟨le_rfl, ?_, id, fun h => ?_⟩
  · show (match value? s.time (keys.foldl (fun s k => s.erase k) s.store) (failsKey name) with
      | some (.str n) => n | _ => 0) ≤ _
    rcases hlive : live? s.time (keys.foldl (fun s k => s.erase k) s.store) (failsKey name) with _ | e
    · simp only [value?, hlive, Option.map_none]
      exact hs
    · have hsame := live?_eraseAll (by rw [hlive]; rfl)
      simp only [State.pooledFailures, value?, hsame, le_refl]
  · exact (congrArg Option.isSome (live?_eraseAll h)).symm.trans h

theorem recordSuccess_unharmed {replica' : Nat} {name' : String} {s : Site}
    (hs : 0 ≤ (s.breakers replica name).consecutiveFailures) :
    Unharmed replica name s (s.ask replica' name' .recordSuccess).2 := by
  have hbreaker : ((s.ask replica' name' .recordSuccess).2.breakers replica name) =
      if replica = replica' ∧ name = name' then (s.breakers replica name).recordSuccess else s.breakers replica name := by
    show Function.update s.breakers replica' (Function.update (s.breakers replica') name' _) replica name = _
    by_cases hr : replica = replica'
    · subst hr
      rw [Function.update_self]
      by_cases hn : name = name'
      · subst hn
        simp
      · simp [hn]
    · simp [hr]
  refine ⟨?_, le_rfl, fun h => ?_, id⟩
  · rw [hbreaker]
    split
    · exact hs
    · exact le_rfl
  · rw [hbreaker] at h
    split at h
    · cases h
    · exact h

theorem exec_unharmed {e : Op} {choice : Choice} {s : Site} {o : Except Exn e.Reply × Site} (he : e.harmless)
    (hcount : 0 ≤ (s.breakers replica name).consecutiveFailures) (hpooled : 0 ≤ s.pooledFailures name)
    (ho : exec e choice s = some o) : Unharmed replica name s o.2 := by
  cases e with
  | breaker replica' name' m =>
    obtain rfl : m = .recordSuccess := he
    cases choice <;> cases ho
    exact recordSuccess_unharmed hcount
  | redis c =>
    obtain ⟨keys, rfl⟩ := he
    cases choice with
    | ok =>
      cases ho
      exact del_unharmed hpooled
    | lost applied | cancelled applied =>
      cases ho
      cases applied
      · exact .refl
      · exact del_unharmed hpooled
    | _ => cases ho
  | sleep _ | fault _ | complete _ _ | stream _ _ | wait _ | aclose | msSince => cases choice <;> cases ho <;> exact .refl
  | _ => exact he.elim

theorem harmless_along {α : Type} {p : Program α} (hp : Hands Op.harmless p) (ms : Stream' Moment) :
    Along moments (Spared replica name) p ms :=
  Along.hands (fun e ms he => show Spared replica name e ms from
    exec_unharmed he (ms.head.counted replica name) (ms.head.pooled name) (ms.head.exec_answer e)) hp ms

theorem recordFailure_count {b : CircuitBreaker} {now stamp : ℚ} :
    (b.recordFailure now stamp).2.consecutiveFailures = b.consecutiveFailures + 1 := by
  have hrefresh (b : CircuitBreaker) : (b.refresh now).consecutiveFailures = b.consecutiveFailures := by
    unfold CircuitBreaker.refresh
    split <;> rfl
  unfold CircuitBreaker.recordFailure
  dsimp only
  split <;> exact hrefresh _

/-- Recording a failure counts it. -/
theorem recordFailure_counts {choice : Choice} {s : Site} {o : Except Exn Bool × Site}
    (ho : exec (.breaker replica name .recordFailure) choice s = some o) : ¬Unharmed replica name s o.2 := by
  intro h
  cases choice <;> cases ho
  have hcount : ((s.ask replica name .recordFailure).2.breakers replica name).consecutiveFailures =
      (s.breakers replica name).consecutiveFailures + 1 := by
    show (Function.update s.breakers replica (Function.update (s.breakers replica) name _) replica name).consecutiveFailures = _
    rw [Function.update_self, Function.update_self]
    exact recordFailure_count
  have hle := h.failures
  rw [hcount] at hle
  omega

end NexusGate.Gateway.Router

namespace NexusGate.Gateway.LLMRouter
open Async Redis Router
variable {self : LLMRouter}

/-- Where a provider can raise, with what has become of the request until then. -/
inductive Refusal
  | whole (dep : Deployment) (request : ChatRequest) (left retry : Nat) (attempts : List Attempt)
  | opening (dep : Deployment) (request : ChatRequest) (adapter : Adapter) (left retry : Nat) (attempts : List Attempt)
  | relaying (opened : OpenStream)

namespace Refusal

/-- The deployment that refuses the request. -/
def dep : Refusal → Deployment
  | .whole dep _ _ _ _ | .opening dep _ _ _ _ _ => dep
  | .relaying opened => opened.deployment

/-- From the call to the provider on. -/
def body (self : LLMRouter) : Refusal → Program Unit
  | .whole dep request left retry attempts => (fun _ => ()) <$> self.callLoop dep request (left + 1) retry attempts
  | .opening dep request adapter left retry attempts =>
    (fun _ => ()) <$> self.openLoop dep request adapter (left + 1) retry attempts
  | .relaying opened => (fun _ => ()) <$> self.relayNext opened

/-- The provider raises a `ProviderError` that is not retryable. -/
def Raises (self : LLMRouter) (message : String) (ms : Stream' Moment) : Refusal → Prop
  | .whole dep request _ retry _ =>
    ((do backOff retry; caught (do self.injectFault dep; self.callProvider dep request)).run moments ms).1 =
      .ok (.error (.providerError message false))
  | .opening dep request adapter _ retry _ => ∃ opened,
    ((do backOff retry; self.firstDelta dep request adapter).run moments ms).1 =
      .ok (.error (.providerError message false, opened))
  | .relaying opened => ∃ iterator : Script,
    (opened.rest = .notStarted iterator ∨ ∃ delivered words, opened.rest = .suspended iterator delivered words) ∧
      iterator.failure = some (.provider message false) ∧ (∀ delta ∈ iterator.deltas, delta.content = "") ∧
      ∀ i ≤ iterator.deltas.length, ((ms.get i).answer (.wait (self.timeoutOf opened.deployment))).1 = .ok ()

/-- Nothing that is done about it counts as a failure of the deployment. -/
def Uncounted (self : LLMRouter) (ms : Stream' Moment) (path : Refusal) : Prop :=
  Along moments (Spared self.replica path.dep.name) (path.body self) ms

/-- The stream had begun. -/
def isRelaying : Refusal → Bool
  | .relaying _ => true
  | _ => false

end Refusal

theorem succeeded_harmless {name : String} : Hands Op.harmless (self.succeeded name) := by
  have hrecord : Hands Op.harmless (breaker self.replica name .recordSuccess) := Hands.call rfl
  unfold succeeded
  split
  · exact hrecord.bind fun _ => (hands_caught (Hands.call ⟨_, rfl⟩)).bind fun _ => trivial
  · exact hrecord

theorem backOff_harmless {retry : Nat} : Hands Op.harmless (backOff retry) := by
  unfold backOff
  split
  · exact Hands.call trivial
  · trivial

theorem injectFault_harmless {dep : Deployment} : Hands Op.harmless (self.injectFault dep) := by
  unfold injectFault
  split
  · exact Hands.call trivial
  · trivial

theorem callProvider_harmless {dep : Deployment} {request : ChatRequest} :
    Hands Op.harmless (self.callProvider dep request) := by
  refine (Hands.call trivial).bind fun answer => (Hands.call trivial).bind fun _ => ?_
  cases answer <;> trivial

theorem nextDelta_harmless {dep : Deployment} {iterator : Script} : Hands Op.harmless (self.nextDelta dep iterator) := by
  refine (Hands.call trivial).bind fun _ => ?_
  obtain ⟨deltas, failure⟩ := iterator
  cases deltas with
  | cons delta deltas => trivial
  | nil => cases failure <;> trivial

theorem firstDelta_harmless {dep : Deployment} {request : ChatRequest} {adapter : Adapter} :
    Hands Op.harmless (self.firstDelta dep request adapter) := by
  refine (hands_caught injectFault_harmless).bind fun o => ?_
  cases o with
  | error e => trivial
  | ok _ =>
    show Hands _ (ite _ _ _)
    split
    · refine (Hands.call trivial).bind fun iterator => (hands_caught nextDelta_harmless).bind fun r => ?_
      cases r <;> trivial
    · refine (hands_caught callProvider_harmless).bind fun r => ?_
      cases r <;> trivial

theorem closeIterator_harmless {opened : Bool} : Hands Op.harmless (closeIterator opened) := by
  have haclose : Hands Op.harmless (caught (Prog.call Op.aclose)) := hands_caught (Hands.call trivial)
  cases opened
  · trivial
  · exact haclose.bind fun _ => trivial

/-- What an attempt hands out before the provider has raised, and after it. -/
theorem refused_along {ms : Stream' Moment} {replica : Nat} {name : String} {α β : Type} {attempt : Program α}
    {rest : α → Program β} (hattempt : Hands Op.harmless attempt)
    (hrest : ∀ a, (attempt.run moments ms).1 = .ok a → Hands Op.harmless (rest a)) :
    Along moments (Spared replica name) (attempt.bind rest) ms :=
  Along.bind_iff.mpr ⟨harmless_along hattempt ms, fun a ha => harmless_along (hrest a ha) _⟩

theorem whole_uncounted {dep : Deployment} {request : ChatRequest} {left retry : Nat} {attempts : List Attempt}
    {message : String} {ms : Stream' Moment} (h : (Refusal.whole dep request left retry attempts).Raises self message ms) :
    (Refusal.whole dep request left retry attempts).Uncounted self ms := by
  refine Along.bind_iff.mpr ⟨?_, fun _ _ => trivial⟩
  rw [callLoop, Prog.bind_eq, Prog.bind_eq, ← Prog.bind_assoc]
  refine refused_along (backOff_harmless.bind fun _ =>
    hands_caught (injectFault_harmless.bind fun _ => callProvider_harmless)) fun o ho => ?_
  obtain rfl : .error (.providerError message false) = o := Except.ok.inj (h.symm.trans ho)
  exact succeeded_harmless.bind fun _ => (Hands.call trivial).bind fun _ => trivial

theorem opening_uncounted {dep : Deployment} {request : ChatRequest} {adapter : Adapter} {left retry : Nat}
    {attempts : List Attempt} {message : String} {ms : Stream' Moment}
    (h : (Refusal.opening dep request adapter left retry attempts).Raises self message ms) :
    (Refusal.opening dep request adapter left retry attempts).Uncounted self ms := by
  obtain ⟨opened, h⟩ := h
  refine Along.bind_iff.mpr ⟨?_, fun _ _ => trivial⟩
  rw [openLoop, Prog.bind_eq, Prog.bind_eq, ← Prog.bind_assoc]
  refine refused_along (backOff_harmless.bind fun _ => firstDelta_harmless) fun o ho => ?_
  obtain rfl : .error (.providerError message false, opened) = o := Except.ok.inj (h.symm.trans ho)
  exact closeIterator_harmless.bind fun _ => succeeded_harmless.bind fun _ => (Hands.call trivial).bind fun _ => trivial

/-! ### While a stream is relayed -/

/-- Before anything else, the failure is recorded on the breaker. -/
theorem noteFailure_harms {name : String} {ms : Stream' Moment} :
    ¬Along moments (Spared self.replica name) (self.noteFailure name) ms := by
  intro h
  have hfailed := (Along.bind_iff.mp h).1
  have hrecord : Along moments (Spared self.replica name) (breaker self.replica name .recordFailure) ms := by
    unfold failed at hfailed
    split at hfailed
    · exact (Along.bind_iff.mp hfailed).1
    · exact hfailed
  have hspared : Spared self.replica name (.breaker self.replica name .recordFailure) ms := Along.call_iff.mp hrecord
  exact recordFailure_counts (ms.head.exec_answer _) hspared

theorem exec_spent {name : String} {usage : Usage} {costUsd : ℚ} {choice : Choice} {s : Site}
    {o : Except Exn Unit × Site} (h : exec (.spent name usage costUsd) choice s = some o) : o.1 = .ok () := by
  cases choice <;> cases h
  rfl

theorem settleUp_ok {opened : OpenStream} {text : String} {ms : Stream' Moment} :
    ∃ o, ((self.settleUp opened text).run moments ms).1 = .ok o := by
  have hends : Ends moments (self.settleUp opened text) ms fun r _ => ∃ o, r = .ok o := by
    unfold settleUp
    split
    · exact ⟨opened, rfl⟩
    · refine Ends.bind_iff.mpr (Ends.call ?_)
      have hok := exec_spent (ms.head.exec_answer (.spent (self.settle opened text).deployment.name
        (self.settle opened text).usage (self.settle opened text).costUsd))
      dsimp only [moments]
      rw [hok]
      exact ⟨_, rfl⟩
  exact hends

theorem relayEnd_harms {failure : Failure} {delivered : List String} {opened : OpenStream} {dep : Deployment}
    {ms : Stream' Moment} (hdep : opened.deployment = dep) :
    ¬Along moments (Spared self.replica dep.name) (self.relayEnd (some failure) delivered opened) ms := by
  intro h
  obtain ⟨o, ho⟩ : ∃ o, ((self.settleUp opened (String.join delivered)).run moments ms).1 = .ok o := settleUp_ok
  have hnote := (Along.bind_iff.mp ((Along.bind_iff.mp h).2 o ho)).1
  rw [hdep] at hnote
  exact noteFailure_harms (Along.attempt_iff.mp hnote)

/-- What follows once the iterator has been waited for. -/
theorem waited_along {α : Type} {timeout : ℚ} {rest : Except Exn Unit → Program α} {ms : Stream' Moment} {name : String}
    (hwait : (ms.head.answer (.wait timeout)).1 = .ok ())
    (h : Along moments (Spared self.replica name) ((Prog.call (Op.wait timeout)).attempt.bind rest) ms) :
    Along moments (Spared self.replica name) (rest (.ok ())) ms.tail := by
  have hrun : (Prog.call (Op.wait timeout)).attempt.run moments ms = (.ok (.ok ()), ms.tail) := by
    rw [Prog.run_attempt, Prog.run_call]
    exact congrArg (fun r => (Except.ok r, ms.tail)) hwait
  have hrest := (Along.bind_iff.mp h).2 (.ok ()) (congrArg Prod.fst hrun)
  rwa [hrun] at hrest

theorem relayLoop_harms {failure : Failure} {dep : Deployment} : ∀ {deltas : List StreamDelta} {delivered : List String}
    {words : Nat} {opened : OpenStream} {ms : Stream' Moment}, opened.deployment = dep →
    (∀ delta ∈ deltas, delta.content = "") →
    (∀ i ≤ deltas.length, ((ms.get i).answer (.wait (self.timeoutOf dep))).1 = .ok ()) →
    ¬Along moments (Spared self.replica dep.name) (self.relayLoop (some failure) deltas delivered words opened) ms
  | [], _, _, _, _, hdep, _, hwait, h => by
    rw [relayLoop, hdep] at h
    exact relayEnd_harms hdep (waited_along (hwait 0 le_rfl) h)
  | delta :: deltas, _, _, opened, ms, hdep, hempty, hwait, h => by
    rw [relayLoop, hdep] at h
    have hrest := waited_along (hwait 0 (Nat.zero_le _)) h
    dsimp only at hrest
    rw [if_pos (hempty delta List.mem_cons_self)] at hrest
    have habsorbed : (absorb opened delta).deployment = dep := hdep
    exact relayLoop_harms habsorbed (fun d hd => hempty d (List.mem_cons_of_mem _ hd))
      (fun i hi => hwait (i + 1) (Nat.succ_le_succ hi)) hrest

theorem relaying_counted {opened : OpenStream} {message : String} {ms : Stream' Moment}
    (h : (Refusal.relaying opened).Raises self message ms) : ¬(Refusal.relaying opened).Uncounted self ms := by
  obtain ⟨iterator, hrest, hfailure, hempty, hwait⟩ := h
  intro huncounted
  have hnext := (Along.bind_iff.mp huncounted).1
  unfold relayNext at hnext
  rcases hrest with hrest | ⟨delivered, words, hrest⟩
  · rw [hrest] at hnext
    dsimp only at hnext
    rw [hfailure] at hnext
    refine relayLoop_harms ?_ hempty hwait hnext
    unfold estimate
    split <;> rfl
  · rw [hrest] at hnext
    dsimp only at hnext
    rw [hfailure] at hnext
    exact relayLoop_harms rfl hempty hwait hnext

/-- A `ProviderError` that is not retryable is counted as a failure exactly where the stream had begun: the
    generator that relays it treats every exception as an interruption. -/
theorem uncounted_iff {path : Refusal} {message : String} {ms : Stream' Moment} (h : path.Raises self message ms) :
    path.Uncounted self ms ↔ path.isRelaying = false := by
  cases path with
  | whole => exact iff_of_true (whole_uncounted h) rfl
  | opening => exact iff_of_true (opening_uncounted h) rfl
  | relaying => exact iff_of_false (relaying_counted h) Bool.noConfusion

/-! ### A provider that finds fault with a request in the middle of its answer -/

namespace MidStream
open Fallback (router request primary breaker)

/-- The provider refuses the request itself, and says that a retry is of no use. -/
def tooLong : Failure := .provider "400: prompt is too long" false

/-- A replica whose breakers are all CLOSED. -/
def site : Site where
  breakers := fun _ _ => breaker

/-- The provider refuses both calls and streams. -/
def moment : Moment where
  site := site
  choose := fun
    | .complete _ _ => .whole (.error tooLong)
    | .stream _ _ => .script ⟨[], some tooLong⟩
    | .msSince => .elapsed 0
    | _ => .ok
  fits e := by cases e <;> rfl
  counted _ _ := le_rfl
  pooled _ := le_rfl

/-- The stream of the first provider, after a first piece of text. -/
def opened : OpenStream where
  deployment := primary
  model := primary.model
  attempts := [{ deployment := primary.name, outcome := .success }]
  first := { content := "hello" }
  rest := .notStarted ⟨[], some tooLong⟩
  ttftMs := 0

theorem refusal_counted : (Refusal.relaying opened).Raises router "400: prompt is too long" (Stream'.const moment) ∧
    ¬(Refusal.relaying opened).Uncounted router (Stream'.const moment) := by
  have hraises : (Refusal.relaying opened).Raises router "400: prompt is too long" (Stream'.const moment) :=
    ⟨⟨[], some tooLong⟩, .inl rfl, rfl, nofun, fun _ _ => rfl⟩
  exact ⟨hraises, relaying_counted hraises⟩

theorem rejected_uncounted :
    (Refusal.opening primary request ⟨true⟩ 2 0 []).Raises router "400: prompt is too long" (Stream'.const moment) ∧
      (Refusal.opening primary request ⟨true⟩ 2 0 []).Uncounted router (Stream'.const moment) := by
  have hraises : (Refusal.opening primary request ⟨true⟩ 2 0 []).Raises router "400: prompt is too long"
      (Stream'.const moment) := ⟨true, rfl⟩
  exact ⟨hraises, (uncounted_iff hraises).mpr rfl⟩

end MidStream
end NexusGate.Gateway.LLMRouter
