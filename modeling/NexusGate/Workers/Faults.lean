import NexusGate.Async.Eval
import NexusGate.Workers.Service

/-! # One call of the job service, and which of its steps fail

Surroundings that carry out one upload or one delivery on its own: which of its calls to Redis and to the broker
lose their connection, before or after they took effect, and how `ingest` ends, is fixed beforehand. -/

namespace NexusGate.Workers
open Async Redis Rag

/-- What one call meets. `lost` says which of the calls to Redis and the broker fail, counted from 0, and whether
    they took effect all the same; the ids drawn are numbered by the calls made before. -/
structure Faults where
  lost : Nat → Option Bool := fun _ => none
  uuid : Nat → String := fun _ => ""
  date : Nat := 0
  seconds : ℚ := 0
  ingested : Except Exn DocumentRecord

/-- The state, and how many calls to Redis and the broker have been made. -/
structure Alone extends State where
  calls : Nat := 0

/-- Operations that go over the network. -/
def Op.remote : Op → Bool
  | .redis _ | .multi _ | .enqueue _ _ => true
  | _ => false

namespace Faults
variable (f : Faults)

def choice (n : Nat) : Op → Choice
  | .redis _ | .multi _ | .enqueue _ _ => match f.lost n with
    | none => .ok
    | some applied => .lost applied
  | .uuid => .id (f.uuid n)
  | .utcnow => .time f.date
  | .perfCounter => .seconds f.seconds
  | .ingest _ _ => match f.ingested with
    | .ok record => .ingested record
    | .error e => .raises e

/-- The surroundings of a call. -/
def answer : Handler Op Op.Reply Exn Alone := fun e a =>
  match exec e (f.choice a.calls e) a.toState with
  | some (r, s) => (r, ⟨s, if e.remote then a.calls + 1 else a.calls⟩)
  | none => (.error connectionError, a)

/-- Every operation is answered as in the pool; an id is one that was not given out before. -/
theorem exec_answer (e : Op) (a : Alone) (he : e = .uuid → isUuidHex (f.uuid a.calls) = true ∧ f.uuid a.calls ∉ a.drawn) :
    exec e (f.choice a.calls e) a.toState = some ((f.answer e a).1, (f.answer e a).2.toState) := by
  have hfits : ∃ x, exec e (f.choice a.calls e) a.toState = some x := by
    cases e with
    | uuid =>
      obtain ⟨hex, hnew⟩ := he rfl
      exact ⟨_, if_pos (by rw [hex, decide_eq_true hnew]; rfl)⟩
    | ingest t u =>
      simp only [choice]
      cases f.ingested <;> exact ⟨_, rfl⟩
    | utcnow => exact ⟨_, rfl⟩
    | perfCounter => exact ⟨_, rfl⟩
    | _ =>
      simp only [choice]
      cases f.lost a.calls <;> exact ⟨_, rfl⟩
  obtain ⟨x, hx⟩ := hfits
  simp only [answer, hx]

section
variable {f} {a : Alone}

/-- What a command leaves that was carried out, or lost on its way there or back. -/
theorem redis_ends {c : Cmd Blob} {Q : Except Exn (Redis.Reply Blob) → Alone → Prop}
    (hok : f.lost a.calls = none → Q (if Reply.failed (Redis.exec a.now c a.store).1 then .error responseError else
      .ok (Redis.exec a.now c a.store).1) ⟨{ a.toState with store := (Redis.exec a.now c a.store).2 }, a.calls + 1⟩)
    (hkept : f.lost a.calls = some false → Q (.error connectionError) ⟨a.toState, a.calls + 1⟩)
    (happlied : f.lost a.calls = some true →
      Q (.error connectionError) ⟨{ a.toState with store := (Redis.exec a.now c a.store).2 }, a.calls + 1⟩) :
    Ends f.answer (redis c) a Q := by
  refine .call ?_
  simp only [answer, choice]
  match hl : f.lost a.calls with
  | none => exact hok hl
  | some false => exact hkept hl
  | some true => exact happlied hl

theorem multi_ends {cs : List (Cmd Blob)} {Q : Except Exn (List (Redis.Reply Blob)) → Alone → Prop}
    (hok : f.lost a.calls = none → Q (if (Redis.execAll a.now cs a.store).1.any Reply.failed then .error responseError else
      .ok (Redis.execAll a.now cs a.store).1) ⟨{ a.toState with store := (Redis.execAll a.now cs a.store).2 }, a.calls + 1⟩)
    (hkept : f.lost a.calls = some false → Q (.error connectionError) ⟨a.toState, a.calls + 1⟩)
    (happlied : f.lost a.calls = some true →
      Q (.error connectionError) ⟨{ a.toState with store := (Redis.execAll a.now cs a.store).2 }, a.calls + 1⟩) :
    Ends f.answer (multi cs) a Q := by
  refine .call ?_
  simp only [answer, choice]
  match hl : f.lost a.calls with
  | none => exact hok hl
  | some false => exact hkept hl
  | some true => exact happlied hl

/-- A message is sent, or lost on its way there or back. -/
theorem enqueue_ends {job : IngestJob} {payloadId : String} {Q : Except Exn Unit → Alone → Prop}
    (hok : f.lost a.calls = none →
      Q (.ok ()) ⟨{ a.toState with messages := (job.tenantId, job.jobId, payloadId) :: a.messages }, a.calls + 1⟩)
    (hkept : f.lost a.calls = some false → Q (.error connectionError) ⟨a.toState, a.calls + 1⟩)
    (happlied : f.lost a.calls = some true → Q (.error connectionError)
      ⟨{ a.toState with messages := (job.tenantId, job.jobId, payloadId) :: a.messages }, a.calls + 1⟩) :
    Ends f.answer (.call (Op.enqueue job payloadId) : Program Unit) a Q := by
  refine .call ?_
  simp only [answer, choice]
  match hl : f.lost a.calls with
  | none => exact hok hl
  | some false => exact hkept hl
  | some true => exact happlied hl

theorem uuid_ends (hhex : isUuidHex (f.uuid a.calls) = true) (hnew : f.uuid a.calls ∉ a.drawn) {Q : Except Exn String → Alone → Prop}
    (hq : Q (.ok (f.uuid a.calls)) ⟨{ a.toState with drawn := f.uuid a.calls :: a.drawn }, a.calls⟩) :
    Ends f.answer uuid4 a Q := by
  refine .call ?_
  simp only [answer, choice, exec, hhex, decide_eq_true hnew, Bool.and_self, if_true]
  exact hq

theorem utcnow_ends {Q : Except Exn Nat → Alone → Prop} (hq : Q (.ok f.date) a) : Ends f.answer utcnow a Q := .call hq

theorem perfCounter_ends {Q : Except Exn ℚ → Alone → Prop} (hq : Q (.ok f.seconds) a) :
    Ends f.answer perfCounter a Q :=
  .call hq

theorem ingest_ends {t : String} {u : DocumentUpload} {Q : Except Exn DocumentRecord → Alone → Prop}
    (hq : Q f.ingested a) : Ends f.answer (.call (Op.ingest t u) : Program DocumentRecord) a Q := by
  refine .call ?_
  simp only [answer, choice]
  cases h : f.ingested <;> rw [h] at hq <;> exact hq

end
end Faults
end NexusGate.Workers
