import Mathlib.Algebra.Order.Ring.Rat
import NexusGate.Async.Pool

/-! # Bounded concurrency for model inference

`InferenceGate` of `app/core/concurrency.py`, with what it uses of `asyncio` as Python 3.11 has it: the semaphore that
its callers wait at, the task in which `wait_for` runs `acquire`, and the worker threads that functions are handed to.
Between two of its awaits a call is not interleaved with another, so that what it does there is one operation. -/

namespace NexusGate.Core
open Async

/-! ## The semaphore of `asyncio` -/

/-- A future that a waiter waits for. -/
inductive FutureState
  | pending
  | granted
  | cancelled
  deriving DecidableEq

/-- Whoever waits in `acquire`: a caller, or the task in which `wait_for` runs `acquire` for a caller. -/
structure Waiter where
  fut : Nat
  /-- A task waits here, of the name `fut`. -/
  inTask : Bool := false
  state : FutureState := .pending
  /-- It is cancelled, which is raised when it goes on. -/
  interrupted : Bool := false
  /-- The caller that the task acquires for has gone away. -/
  left : Bool := false
  deriving DecidableEq

def Waiter.isCaller (fut : Nat) (w : Waiter) : Bool := w.fut == fut && !w.inTask

def Waiter.isTask (task : Nat) (w : Waiter) : Bool := w.fut == task && w.inTask

/-- `waiters` are in the order in which they came. -/
structure Semaphore where
  value : Nat
  waiters : List Waiter := []

namespace Semaphore

/-- The semaphore cannot be acquired at once. -/
def locked (s : Semaphore) : Bool := s.value == 0 || s.waiters.any fun w => w.state != .cancelled

/-- Grant the first future that is still pending. -/
def grantFirst : List Waiter → Option (List Waiter)
  | [] => none
  | w :: ws => if w.state = .pending then some ({ w with state := .granted } :: ws) else (grantFirst ws).map (w :: ·)

/-- `_wake_up_next`. -/
def wakeUpNext (s : Semaphore) : Semaphore :=
  match grantFirst s.waiters with
  | some waiters => { value := s.value - 1, waiters }
  | none => s

def release (s : Semaphore) : Semaphore := { s with value := s.value + 1 }.wakeUpNext

/-- The rest of `acquire` once `w` goes on: a slot that was granted to someone who has been cancelled in the meantime
    is given back, and whoever goes on with its slot wakes up the next one if there is another slot. -/
def resume (s : Semaphore) (w : Waiter) : Semaphore :=
  let s := { s with waiters := s.waiters.erase w }
  if w.interrupted then if w.state = .granted then s.release else s
  else if 0 < s.value then s.wakeUpNext else s

end Semaphore

/-- `Task.cancel` on whoever waits: the future is cancelled unless it has been granted already. -/
def Waiter.interrupt (w : Waiter) : Waiter :=
  { w with state := if w.state = .pending then .cancelled else w.state, interrupted := true }

/-! ## The task of `wait_for` -/

inductive TaskState
  /-- It has not had its first turn yet; a task that was cancelled before does nothing then. -/
  | created (cancelled : Bool)
  | acquired
  | cancelled
  deriving DecidableEq

/-- A task in which `wait_for` runs `acquire`, as long as it does not wait at the semaphore. -/
structure Task where
  name : Nat
  state : TaskState
  /-- The caller that it acquires for has gone away. -/
  left : Bool := false
  deriving DecidableEq

/-- `Task.cancel` on a task that does not wait. -/
def Task.cancel (t : Task) : Task :=
  { t with state := match t.state with
    | .created _ => .created true
    | state => state }

/-- The task among those that somebody may still ask for: one that has come to nothing, and for which no caller waits,
    is gone. -/
def Task.kept (t : Task) : List Task := if t.left && t.state == .cancelled then [] else [t]

/-- The task that waited here, once it has gone on. -/
def Waiter.resumed (w : Waiter) : Task where
  name := w.fut
  state := if w.state = .granted ∧ w.interrupted = false then .acquired else .cancelled
  left := w.left

/-- Why a caller of `wait_for` goes on: the task has acquired a slot; or the budget is used up, or the caller is
    cancelled, and the task is to be cancelled. -/
inductive Wake
  | acquired
  | expired
  | cancelled
  deriving DecidableEq

/-! ## The gate -/

/-- `inMilliseconds` is how a number of milliseconds is written in a message. -/
structure InferenceGate where
  name : String
  maxConcurrency : Nat
  maxQueue : Nat
  positive : 1 ≤ maxConcurrency
  inMilliseconds : ℚ → String

inductive JobState (T : Type)
  | queued
  | executing
  /-- What the function returned, or the text of what it raised. -/
  | finished (outcome : Except String T)

/-- A function that was handed to a worker thread; its caller may have gone away. -/
structure Job (T : Type) where
  ticket : Nat
  state : JobState T := .queued
  awaited : Bool := true

def JobState.isExecuting {T : Type} : JobState T → Bool
  | .executing => true
  | _ => false

/-- What `f` makes of the job with this ticket. -/
def setJob {T : Type} (ticket : Nat) (f : Job T → Option (Job T)) : List (Job T) → List (Job T)
  | [] => []
  | j :: js => if j.ticket = ticket then (f j).toList ++ js else j :: setJob ticket f js

namespace InferenceGate

/-- `slots` and `waiting` of a gate, the tasks that `wait_for` has made, the functions that were handed to threads,
    and a supply of names. -/
structure State (T : Type) where
  slots : Semaphore
  waiting : Int := 0
  tasks : List Task := []
  jobs : List (Job T) := []
  fresh : Nat := 0

inductive Exn
  | overloaded (message : String)
  | timeout
  | cancelled
  | raised (message : String)
  deriving DecidableEq

inductive Op
  /-- From the call of `run` to the end of `acquire`, or to its `await`, or to the first one of `wait_for`. -/
  | enter (maxWait : Option ℚ)
  /-- `acquire` from its `await` on. -/
  | wake (fut : Nat)
  /-- `wait_for` waits for its task, and cancels it if it goes on before the task has acquired a slot. -/
  | waitFor (task : Nat)
  /-- `_cancel_and_wait` waits for the task to end. -/
  | settle (task : Nat)
  /-- `asyncio.to_thread` up to its `await`. -/
  | submit
  | join (ticket : Nat)
  | release

abbrev Op.Reply (T : Type) : Op → Type
  | .enter _ => Option Nat
  | .wake _ => Unit
  | .waitFor _ => Wake
  | .settle _ => Unit
  | .submit => Nat
  | .join _ => T
  | .release => Unit

abbrev Program (T : Type) := Prog Op (Op.Reply T) Exn

/-- What becomes of a caller that waits. -/
inductive Choice
  | ok
  | cancelled
  /-- The budget of the caller is used up. -/
  | expired

section
variable {T : Type} (self : InferenceGate)

/-- What a caller that arrives does up to its first await: it is refused; it has a slot; or it waits for one, with a
    budget in a task. -/
def enter (maxWait : Option ℚ) (s : State T) : Except Exn (Option Nat) × State T :=
  if s.slots.locked ∧ self.maxQueue ≤ s.waiting then
    (.error (.overloaded (self.name ++ " is saturated; try again shortly")), s)
  else match maxWait with
    | some timeout =>
      (.ok (some s.fresh), { s with
        tasks := s.tasks ++ [{ name := s.fresh, state := .created (timeout ≤ 0) }]
        waiting := s.waiting + 1
        fresh := s.fresh + 1 })
    | none =>
      if s.slots.locked then
        (.ok (some s.fresh), { s with
          slots := { s.slots with waiters := s.slots.waiters ++ [{ fut := s.fresh }] }
          waiting := s.waiting + 1
          fresh := s.fresh + 1 })
      else (.ok none, { s with slots := { s.slots with value := s.slots.value - 1 } })

/-- A caller goes on whose future has been granted or cancelled. -/
def wake (fut : Nat) (s : State T) : Option (Except Exn Unit × State T) :=
  (s.slots.waiters.find? (Waiter.isCaller fut)).bind fun w =>
    let s := { s with slots := s.slots.resume w, waiting := s.waiting - 1 }
    match w.interrupted, w.state with
    | true, _ => some (.error .cancelled, s)
    | false, .granted => some (.ok (), s)
    | false, _ => none

/-- `Task.cancel` on a task of `wait_for`, wherever it stands. -/
def State.cancelTask (s : State T) (task : Nat) : State T :=
  { s with
    tasks := s.tasks.map fun t => if t.name = task then t.cancel else t
    slots := { s.slots with waiters := s.slots.waiters.map fun w => if w.isTask task then w.interrupt else w } }

/-- The caller of `wait_for` goes on. A slot that its task has acquired is its own then, even where its budget is used
    up or it is cancelled at the same time. -/
def awaken (task : Nat) (choice : Choice) (s : State T) : Option (Except Exn Wake × State T) :=
  match s.tasks.find? fun t => t.name == task && t.state == .acquired with
  | some t => some (.ok .acquired, { s with tasks := s.tasks.erase t, waiting := s.waiting - 1 })
  | none =>
    match choice with
    | .ok => none
    | .expired => some (.ok .expired, s.cancelTask task)
    | .cancelled => some (.ok .cancelled, s.cancelTask task)

/-- The caller goes away while its task has not ended, or has ended just now. -/
def State.leaveTask (s : State T) (task : Nat) : Option (State T) :=
  match s.tasks.find? fun t => t.name == task && !t.left with
  | some t => some { s with tasks := { t with left := true }.kept ++ s.tasks.erase t }
  | none => (s.slots.waiters.find? fun w => w.isTask task && !w.left).map fun w =>
    { s with slots := { s.slots with waiters := s.slots.waiters.replace w { w with left := true } } }

/-- `_cancel_and_wait` goes on once the task has ended; or its caller is cancelled, once more, and goes away at once. -/
def settle (task : Nat) (choice : Choice) (s : State T) : Option (Except Exn Unit × State T) :=
  match choice with
  | .ok => (s.tasks.find? fun t => t.name == task && t.state == .cancelled).map fun t =>
    (.ok (), { s with tasks := s.tasks.erase t, waiting := s.waiting - 1 })
  | .cancelled => (s.leaveTask task).map fun s => (.error .cancelled, { s with waiting := s.waiting - 1 })
  | .expired => none

/-- A task of `wait_for` has its turn: `acquire` from its start to its end or its `await`, or from there on. -/
def turn (task : Nat) (s : State T) : Option (State T) :=
  match s.tasks.find? fun t => t.name == task with
  | some t =>
    let others := s.tasks.erase t
    match t.state with
    | .created true => some { s with tasks := { t with state := .cancelled }.kept ++ others }
    | .created false =>
      if s.slots.locked then
        some { s with
          tasks := others
          slots := { s.slots with
            waiters := s.slots.waiters ++ [{ fut := task, inTask := true, left := t.left }] } }
      else
        some { s with
          tasks := { t with state := .acquired } :: others
          slots := { s.slots with value := s.slots.value - 1 } }
    | _ => none
  | none =>
    (s.slots.waiters.find? (Waiter.isTask task)).bind fun w =>
      if w.state = .pending then none
      else some { s with slots := s.slots.resume w, tasks := w.resumed.kept ++ s.tasks }

def submit (s : State T) : Nat × State T :=
  (s.fresh, { s with jobs := s.jobs ++ [{ ticket := s.fresh }], fresh := s.fresh + 1 })

def State.setJob (s : State T) (ticket : Nat) (f : Job T → Option (Job T)) : State T :=
  { s with jobs := Core.setJob ticket f s.jobs }

def State.job? (s : State T) (ticket : Nat) : Option (Job T) := s.jobs.find? fun j => j.ticket == ticket

/-- The function has come to its end, or its caller is cancelled: a function that still waits for a thread is
    dropped then, and one that is executing goes on. -/
def join (ticket : Nat) (choice : Choice) (s : State T) : Option (Except Exn T × State T) :=
  (s.job? ticket).bind fun j =>
    match choice, j.state with
    | .ok, .finished outcome => some (outcome.mapError .raised, s.setJob ticket fun _ => none)
    | .ok, _ => none
    | .cancelled, .executing => some (.error .cancelled, s.setJob ticket fun j => some { j with awaited := false })
    | .cancelled, _ => some (.error .cancelled, s.setJob ticket fun _ => none)
    | .expired, _ => none

@[grind =] def exec (e : Op) (choice : Choice) (s : State T) : Option (Except Exn (e.Reply T) × State T) :=
  match e, choice with
  | .enter maxWait, .ok => some (self.enter maxWait s)
  | .wake fut, .ok => wake fut s
  | .waitFor task, choice => awaken task choice s
  | .settle task, choice => settle task choice s
  | .submit, .ok => some (.ok (submit s).1, (submit s).2)
  | .join ticket, choice => join ticket choice s
  | .release, .ok => some (.ok (), { s with slots := s.slots.release })
  | _, _ => none

/-- What happens around the callers: one that waits at the semaphore is cancelled, a task has its turn, a function
    begins in a thread, or comes to its end there. -/
inductive Env (T : Type)
  | interrupt (fut : Nat)
  | turn (task : Nat)
  | begin (ticket : Nat)
  | finish (ticket : Nat) (outcome : Except String T)

def env (a : Env T) (s : State T) : Option (State T) :=
  match a with
  | .interrupt fut =>
    (s.slots.waiters.find? (Waiter.isCaller fut)).map fun _ => { s with slots := { s.slots with
      waiters := s.slots.waiters.map fun w => if w.isCaller fut then w.interrupt else w } }
  | .turn task => turn task s
  | .begin ticket =>
    (s.job? ticket).bind fun j =>
      match j.state with
      | .queued => some (s.setJob ticket fun j => some { j with state := .executing })
      | _ => none
  | .finish ticket outcome =>
    (s.job? ticket).bind fun j =>
      match j.state with
      | .executing =>
        some (s.setJob ticket fun j => if j.awaited then some { j with state := .finished outcome } else none)
      | _ => none

/-- `asyncio.wait_for` from its first await on. -/
def waitFor (task : Nat) (timeout : ℚ) : Program T Unit := do
  if timeout ≤ 0 then
    Prog.call (Op.settle task)
    .throw .timeout
  else
    match ← Prog.call (Op.waitFor task) with
    | .acquired => return
    | .expired =>
      Prog.call (Op.settle task)
      .throw .timeout
    | .cancelled =>
      Prog.call (Op.settle task)
      .throw .cancelled

/-- The `try` around `acquire`: a budget that is used up sheds the caller. -/
def acquire (maxWait : Option ℚ) : Program T Unit := do
  match ← Prog.call (Op.enter maxWait) with
  | none => return
  | some fut =>
    match maxWait with
    | none => Prog.call (Op.wake fut)
    | some timeout =>
      match ← (waitFor fut timeout).attempt with
      | .ok _ => return
      | .error .timeout =>
        .throw (.overloaded (self.name ++ " had no free slot within " ++ self.inMilliseconds (timeout * 1000) ++ " ms"))
      | .error e => .throw e

def run (maxWait : Option ℚ) : Program T T := do
  self.acquire maxWait
  (do
    let ticket ← Prog.call Op.submit
    Prog.call (Op.join ticket)).andFinally (Prog.call Op.release)

/-- Any number of callers of one gate, on one event loop. -/
def system (T : Type) (self : InferenceGate) : System where
  Op := Op
  Reply := Op.Reply T
  Exn := Exn
  Result := T
  State := State T
  Call := Option ℚ
  Choice := Choice
  Env := Env T
  body := self.run
  admits _ _ := true
  exec := self.exec
  env := env
  place _ := 0
  sync
    | .wake _ | .waitFor _ | .settle _ | .join _ => false
    | _ => true
  mortal _ := false

/-- A new gate. -/
def fresh (T : Type) (self : InferenceGate) : (self.system T).World where
  state := { slots := { value := self.maxConcurrency } }

end
end InferenceGate
end NexusGate.Core
