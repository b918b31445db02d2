import NexusGate.Async.Eval
import NexusGate.Gateway.Rollout

/-! # Calls on a rollout, one after the other

Surroundings that answer one call on a `RolloutManager` after the other: what the clocks say, what the random
generator draws and which commands lose their connection is fixed beforehand, call by call. -/

namespace NexusGate.Gateway.Rollout
open Async Redis

/-- What one call meets; it reads the date and draws a number once at most. `elapsed` is the time that passes
    before each of its operations, and `lost` says which of them lose the connection, before or after the command
    took effect. -/
structure Occasion where
  utcnow : String
  random : ℚ
  elapsed : Nat → ℚ
  lost : Nat → Option Bool := fun _ => none
  drawn : 0 ≤ random ∧ random < 1
  monotone : ∀ n, 0 ≤ elapsed n

/-- The state, and how many operations the call under way has carried out. -/
structure Alone extends State where
  count : Nat := 0

namespace Occasion
variable (o : Occasion)

/-- No command loses its connection. -/
def Reachable : Prop := ∀ n, o.lost n = none

def choice (n : Nat) : Op → Choice
  | .redis _ => match o.lost n with
    | none => .ok
    | some applied => .lost applied
  | .utcnow => .text o.utcnow
  | .random => .number o.random
  | _ => .ok

/-- The clock of a replica has moved on. -/
def pass (replica : Nat) (a : Alone) : State :=
  { a.toState with clock := Function.update a.clock replica (a.clock replica + o.elapsed a.count) }

/-- The surroundings of a call on this replica. -/
def answer (replica : Nat) : Handler Op Op.Reply Exn Alone := fun e a =>
  match exec e (o.choice a.count e) (o.pass replica a) with
  | some (r, s) => (r, ⟨s, a.count + 1⟩)
  | none => (.error .redisError, a)

/-- Every operation is answered, as in the pool. -/
theorem exec_answer (replica : Nat) (e : Op) (a : Alone) :
    exec e (o.choice a.count e) (o.pass replica a) =
      some ((o.answer replica e a).1, (o.answer replica e a).2.toState) := by
  have hfits : ∃ x, exec e (o.choice a.count e) (o.pass replica a) = some x := by
    cases e with
    | redis c =>
      simp only [choice]
      cases o.lost a.count <;> exact ⟨_, rfl⟩
    | random => exact ⟨_, if_pos o.drawn⟩
    | _ => exact ⟨_, rfl⟩
  obtain ⟨x, hx⟩ := hfits
  simp only [answer, hx]

section
variable {o} {replica : Nat} {a : Alone}

theorem redis_ends (h : o.lost a.count = none) {c : Cmd Blob} {Q : Except Exn (Redis.Reply Blob) → Alone → Prop}
    (hq : ∀ a', a'.store = (Redis.exec 0 c a.store).2 → a'.cache = a.cache → a'.count = a.count + 1 →
      Q (if Reply.failed (Redis.exec 0 c a.store).1 then .error .redisError else .ok (Redis.exec 0 c a.store).1) a') :
    Ends (o.answer replica) (redis c) a Q := by
  refine .call ?_
  simp only [answer, choice, h, exec]
  exact hq _ rfl rfl rfl

theorem redis_ok (h : o.lost a.count = none) {c : Cmd Blob} (hr : Reply.failed (Redis.exec 0 c a.store).1 = false)
    {Q : Except Exn (Redis.Reply Blob) → Alone → Prop}
    (hq : ∀ a', a'.store = (Redis.exec 0 c a.store).2 → a'.cache = a.cache → a'.count = a.count + 1 →
      Q (.ok (Redis.exec 0 c a.store).1) a') :
    Ends (o.answer replica) (redis c) a Q :=
  redis_ends h fun a' hs hc hn => by
    rw [hr]
    exact hq a' hs hc hn

theorem pipeline_cons_ok (h : o.lost a.count = none) {c : Cmd Blob} {cs : List (Cmd Blob)}
    (hr : Reply.failed (Redis.exec 0 c a.store).1 = false) {Q : Except Exn Unit → Alone → Prop}
    (hq : ∀ a', a'.store = (Redis.exec 0 c a.store).2 → a'.cache = a.cache → a'.count = a.count + 1 →
      Ends (o.answer replica) (pipeline cs) a' Q) :
    Ends (o.answer replica) (pipeline (c :: cs)) a Q := by
  refine Ends.bind_iff.mpr (.attempt (redis_ok h hr fun a' hs hc hn => ?_))
  refine Ends.bind_iff.mpr ((hq a' hs hc hn).mono fun r a'' h => ?_)
  cases r with
  | ok u => exact .ret h
  | error x => exact h

theorem clock_ends {r : Nat} {Q : Except Exn ℚ → Alone → Prop}
    (hq : ∀ now a', a'.store = a.store → a'.cache = a.cache → a'.count = a.count + 1 → Q (.ok now) a') :
    Ends (o.answer replica) (.call (Op.clock r)) a Q :=
  .call (hq _ _ rfl rfl rfl)

theorem utcnow_ends {Q : Except Exn String → Alone → Prop}
    (hq : ∀ a', a'.store = a.store → a'.cache = a.cache → a'.count = a.count + 1 → Q (.ok o.utcnow) a') :
    Ends (o.answer replica) (.call Op.utcnow) a Q :=
  .call (hq _ rfl rfl rfl)

theorem random_ends {Q : Except Exn ℚ → Alone → Prop}
    (hq : ∀ a', a'.store = a.store → a'.cache = a.cache → a'.count = a.count + 1 → Q (.ok o.random) a') :
    Ends (o.answer replica) (.call Op.random) a Q := by
  refine .call ?_
  simp only [answer, choice, exec, if_pos o.drawn]
  exact hq _ rfl rfl rfl

theorem readCache_ends {r : Nat} {Q : Except Exn Cached → Alone → Prop}
    (hq : ∀ a', a'.store = a.store → a'.cache = a.cache → a'.count = a.count + 1 → Q (.ok (a.cache r)) a') :
    Ends (o.answer replica) (.call (Op.readCache r)) a Q :=
  .call (hq _ rfl rfl rfl)

theorem writeCache_ends {r : Nat} {cache : Cached} {Q : Except Exn Unit → Alone → Prop}
    (hq : ∀ a', a'.store = a.store → a'.cache = Function.update a.cache r cache → a'.count = a.count + 1 → Q (.ok ()) a') :
    Ends (o.answer replica) (.call (Op.writeCache r cache)) a Q :=
  .call (hq _ rfl rfl rfl)

theorem edit_ends {r : Nat} {state : CanaryState} {Q : Except Exn Unit → Alone → Prop}
    (hq : ∀ a', a'.store = a.store → a'.cache = Function.update a.cache r
      { a.cache r with canary := (a.cache r).canary.map fun c => (state, c.2) } → a'.count = a.count + 1 → Q (.ok ()) a') :
    Ends (o.answer replica) (.call (Op.edit r state)) a Q :=
  .call (hq _ rfl rfl rfl)

end
end Occasion

/-- A call on its own: its result and the state it leaves. -/
def Call.perform (c : Call) (o : Occasion) (s : State) : Except Exn Result × State :=
  let (r, a) := c.body.run (o.answer c.manager.replica) { toState := s }
  (r, a.toState)

/-- One call after the other. -/
def performAll : List (Call × Occasion) → State → List (Except Exn Result) × State
  | [], s => ([], s)
  | (c, o) :: calls, s =>
    let (r, s) := c.perform o s
    let (rs, s) := performAll calls s
    (r :: rs, s)

end NexusGate.Gateway.Rollout
