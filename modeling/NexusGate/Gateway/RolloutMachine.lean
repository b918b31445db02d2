import NexusGate.Gateway.Occasion

/-! # What a rollout is for

A table for everybody, and at most one candidate that a share of the requests tries first and that can be
withdrawn. Nothing is cached here, and every action is done at once. -/

namespace NexusGate.Gateway.Rollout

/-- A share of the requests, in percent. -/
abbrev Weight := {w : Int // 0 ≤ w ∧ w ≤ 100}

/-- A candidate; one that has been rolled back takes no share. -/
structure Canary where
  table : RoutingConfig
  version : String
  weight : Weight
  note : Option String
  createdAt : String
  rolledBackAt : Option String
  rollbackReason : Option String
  withdrawn : rolledBackAt.isSome = true → weight.val = 0

def Canary.state (c : Canary) : CanaryState where
  version := c.version
  weight := c.weight.val
  note := c.note
  createdAt := c.createdAt
  rolledBackAt := c.rolledBackAt
  rollbackReason := c.rollbackReason

inductive Action
  | publish (configText : String) (weight : Weight) (note : Option String)
  | setWeight (weight : Weight)
  | rollBack (reason : String)
  | promote
  | discard
  | select
  | stable
  | canary

/-- An action on a manager. -/
def Action.call (m : RolloutManager) : Action → Call
  | .publish configText weight note => .publish m configText weight.val note
  | .setWeight weight => .setWeight m weight.val
  | .rollBack reason => .rollBack m reason
  | .promote => .promote m
  | .discard => .discard m
  | .select => .select m
  | .stable => .stable m
  | .canary => .canary m

structure Machine where
  stable : String × RoutingConfig
  canary : Option Canary := none

namespace Machine

/-- The table of one request, for a draw between 0 and 1. -/
def select (M : Machine) (draw : ℚ) : RoutingConfig × Variant :=
  match M.canary with
  | some c =>
    if 0 < c.weight.val ∧ c.rolledBackAt = none ∧ draw * 100 < c.weight.val then (c.table, ⟨canaryName, c.version⟩)
    else (M.stable.2, ⟨stableName, M.stable.1⟩)
  | none => (M.stable.2, ⟨stableName, M.stable.1⟩)

def publish (table : RoutingConfig) (version : String) (weight : Weight) (note : Option String) (now : String) : Canary where
  table := table
  version := version
  weight := weight
  note := note
  createdAt := now
  rolledBackAt := none
  rollbackReason := none
  withdrawn := nofun

/-- A candidate that takes a share again is no longer rolled back. -/
def setWeight (c : Canary) (weight : Weight) : Canary :=
  { c with
    weight
    rolledBackAt := if weight.val = 0 then c.rolledBackAt else none
    withdrawn := fun h => by
      split at h
      · assumption
      · cases h }

def rollBack (c : Canary) (reason now : String) : Canary :=
  { c with
    weight := ⟨0, le_refl 0, by decide⟩
    rolledBackAt := some now
    rollbackReason := some reason
    withdrawn := fun _ => rfl }

/-- The result of an action done at `now`, with this draw, and the machine after it. -/
def step (format : TableFormat) (now : String) (draw : ℚ) (M : Machine) : Action → Except Exn Result × Machine
  | .publish configText weight note =>
    match format.fromText configText with
    | none => (.error .valueError, M)
    | some table =>
      let c := publish table (format.fingerprint table) weight note now
      (.ok (.published c.state), { M with canary := some c })
  | .setWeight weight =>
    let canary := M.canary.map fun c => setWeight c weight
    (.ok (.changed (canary.map Canary.state)), { M with canary })
  | .rollBack reason =>
    let canary := M.canary.map fun c => rollBack c reason now
    (.ok (.changed (canary.map Canary.state)), { M with canary })
  | .promote =>
    match M.canary with
    | none => (.ok (.promoted none), M)
    | some c => (.ok (.promoted (some (c.version, c.table))), { stable := (c.version, c.table) })
  | .discard => (.ok (.discarded M.canary.isSome), { M with canary := none })
  | .select => (.ok (.selected (M.select draw)), M)
  | .stable => (.ok (.stable M.stable), M)
  | .canary => (.ok (.canary (M.canary.map fun c => (c.state, c.table))), M)

/-- One action after the other, each at its time and with its draw. -/
def run (format : TableFormat) : List (Action × Occasion) → Machine → List (Except Exn Result) × Machine
  | [], M => ([], M)
  | (a, o) :: actions, M =>
    let (r, M) := M.step format o.utcnow o.random a
    let (rs, M) := run format actions M
    (r :: rs, M)

end Machine
end NexusGate.Gateway.Rollout
