import Mathlib.Data.Stream.Init
import NexusGate.Async.Eval
import NexusGate.Gateway.Router

/-! # What surrounds the router

The breakers of every replica and the Redis they share, and surroundings that answer one request after the
other: what the clocks say, which calls to providers fail and how, and what others do in the meantime is fixed
beforehand, in the order in which it is asked for. -/

namespace NexusGate.Gateway.Router
open Async Redis

/-- A breaker that has not been made yet is the one that the factory will make. -/
structure State where
  store : Store Int := ∅
  /-- Redis' own clock. -/
  time : Nat := 0
  breakers : Nat → String → CircuitBreaker
  known : Nat → List String := fun _ => []
  syncedAt : Nat → Option ℚ := fun _ => none

namespace State

def setBreaker (s : State) (replica : Nat) (name : String) (b : CircuitBreaker) : State :=
  { s with breakers := Function.update s.breakers replica (Function.update (s.breakers replica) name b) }

def create (s : State) (replica : Nat) (name : String) : State :=
  if name ∈ s.known replica then s
  else { s with known := Function.update s.known replica (s.known replica ++ [name]) }

/-- `breakers.get(name)`. -/
def breaker? (s : State) (replica : Nat) (name : String) : Option CircuitBreaker :=
  if name ∈ s.known replica then some (s.breakers replica name) else none

/-- Redis carries out one command; a reply that is an error is raised. -/
def redis (s : State) (c : Cmd Int) : Except Exn (Redis.Reply Int) × State :=
  match Redis.exec s.time c s.store with
  | (.error, store) => (.error .redisError, { s with store })
  | (r, store) => (.ok r, { s with store })

end State

/-- What one attempt at a provider meets: an injected fault, or what the provider answers; and how long the
    attempt takes. -/
structure Answer where
  injected : Bool := false
  whole : Except Failure ProviderResponse
  script : Script
  latencyMs : ℚ := 0

/-- `ticks` are the readings of the breakers' clock, two for every method of a breaker; `monotonic` those of
    the clock of `ClusterBreakers`. `others` is what other requests do to the breakers before each method, and
    `remote` what other replicas, or time, do to the store before each command. `calls` lists the calls to
    providers with what they met, and `latencyMs` is how long the last attempt took. -/
structure Scene extends State where
  ticks : Stream' ℚ
  monotonic : Stream' ℚ
  answers : Stream' Answer
  others : Stream' ((Nat → String → CircuitBreaker) → Nat → String → CircuitBreaker) := fun _ => id
  remote : Stream' (Store Int → Store Int) := fun _ => id
  calls : List (Deployment × Answer) := []
  latencyMs : ℚ := 0

namespace Scene

def create (s : Scene) (replica : Nat) (name : String) : Scene := { s with toState := s.toState.create replica name }

/-- Call a method of a breaker. -/
def ask (s : Scene) (replica : Nat) (name : String) (m : CircuitBreaker.Method) : m.Reply × Scene :=
  let breakers := s.others.head s.breakers
  let (reply, b) := (breakers replica name).call s.ticks.head s.ticks.tail.head m
  (reply, { s with
    toState := { s.toState with breakers }.setBreaker replica name b, ticks := s.ticks.tail.tail,
    others := s.others.tail })

/-- Redis carries out one command. -/
def redis (s : Scene) (c : Cmd Int) : Except Exn (Redis.Reply Int) × Scene :=
  let (r, state) := { s.toState with store := s.remote.head s.store }.redis c
  (r, { s with toState := state, remote := s.remote.tail })

/-- The next attempt has been made, without a call to its provider. -/
def spend (s : Scene) : Scene := { s with answers := s.answers.tail, latencyMs := s.answers.head.latencyMs }

/-- The next attempt has called a provider. -/
def spendOn (s : Scene) (dep : Deployment) : Scene := { s.spend with calls := s.calls ++ [(dep, s.answers.head)] }

end Scene

def injectedFault (deployment : String) : Failure := .provider (deployment ++ ": injected fault") true

/-- The surroundings, with Redis within reach or not. -/
def answer (reachable : Bool) : Handler Op Op.Reply Exn Scene
  | .redis c, s => if reachable then s.redis c else (.error .redisError, s)
  | .monotonic _, s => (.ok s.monotonic.head, { s with monotonic := s.monotonic.tail })
  | .syncedAt replica, s => (.ok (s.syncedAt replica), s)
  | .stamp replica now, s => (.ok (), { s with syncedAt := Function.update s.syncedAt replica (some now) })
  | .known replica name, s => (.ok (name ∈ s.known replica), s)
  | .create replica name, s => (.ok (), s.create replica name)
  | .breakerNames replica, s => (.ok (s.known replica), s)
  | .breaker replica name m, s => (.ok (s.ask replica name m).1, (s.ask replica name m).2)
  | .fault deployment, s =>
    if s.answers.head.injected then (.error (injectedFault deployment).exn, s.spend) else (.ok (), s)
  | .complete dep _, s => (.ok s.answers.head.whole, s.spendOn dep)
  | .stream dep _, s => (.ok s.answers.head.script, s.spendOn dep)
  | .msSince, s => (.ok s.latencyMs, s)
  | .sleep _, s | .wait _, s | .aclose, s | .hangUp, s | .gauge _ _ _, s | .spent _ _ _, s => (.ok (), s)

theorem run_caught {σ α : Type} (h : Handler Op Op.Reply Exn σ) (p : Program α) (s : σ) :
    (caught p).run h s = match p.run h s with
      | (.ok a, s') => (.ok (.ok a), s')
      | (.error x, s') => (if x.isException then .ok (.error x) else .error x, s') := by
  simp only [caught, Prog.bind_eq, Prog.run_bind, Prog.run_attempt]
  rcases p.run h s with ⟨x | a, s'⟩
  · cases hx : x.isException <;> simp [hx]
  · rfl

/-- Whatever is raised that is not a cancellation is caught. -/
theorem ends_caught {σ α : Type} {h : Handler Op Op.Reply Exn σ} {p : Program α} {s : σ}
    {Q : Except Exn (Except Exn α) → σ → Prop}
    (hp : Ends h p s fun r s' => (∀ x, r = .error x → x.isException = true) ∧ Q (.ok r) s') :
    Ends h (caught p) s Q := by
  unfold Ends at hp ⊢
  rw [run_caught]
  generalize p.run h s = o at hp
  obtain ⟨x | a, s'⟩ := o
  · simpa only [hp.1 x rfl, if_true] using hp.2
  · exact hp.2

theorem hands_caught {α : Type} {ok : Op → Prop} {p : Program α} (hp : Hands ok p) : Hands ok (caught p) := by
  refine hp.attempt.bind fun r => ?_
  cases r with
  | ok a => trivial
  | error x =>
    show Hands ok (ite _ _ _)
    split <;> trivial

theorem pipeline_hands {ok : Op → Prop} : ∀ {cs : List (Cmd Int)}, (∀ c ∈ cs, ok (.redis c)) → Hands ok (pipeline cs)
  | [], _ => trivial
  | c :: cs, h => by
    refine (Hands.call (h c List.mem_cons_self)).attempt.bind fun first =>
      (pipeline_hands fun c hc => h c (List.mem_cons_of_mem _ hc)).attempt.bind fun others => ?_
    cases first with
    | error x => trivial
    | ok reply => cases others <;> trivial

@[simp] theorem Failure.isException_exn (f : Failure) : f.exn.isException = true := by cases f <;> rfl

end NexusGate.Gateway.Router
