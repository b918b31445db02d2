import Mathlib.Data.List.Basic

/-! # State graphs

`app/agents/graph.py`: named nodes, declared edges, one step at a time, up to a budget of steps. A node reads and changes a
state, the world around it included, and ends in a decision or an exception of any kind. The durations of the steps are left
out, and the errors of a graph hold what their messages show. -/

namespace NexusGate.Agents

def END : String := "end"

/-- What a node decided. -/
structure Next where
  node : String
  note : Option String := none

/-- A completed transition. -/
structure Step where
  node : String
  next : String
  note : Option String := none
  deriving DecidableEq

inductive GraphError
  | entryUndefined (entry : String)
  | undeclaredEdges (missing : List String)
  | undefinedTargets (node : String) (unknown : List String)
  | noTargets (node : String)
  | undeclaredMove (current next : String) (targets : List String)

inductive Exn (ε : Type)
  | graphError (e : GraphError)
  | stepBudgetExceeded (name : String) (maxSteps : Nat)
  | keyError (key : String)
  | other (e : ε)

abbrev Node (σ ε : Type) := σ → Except (Exn ε) Next × σ

def keys {α : Type} (mapping : List (String × α)) : List String := mapping.map Prod.fst

/-- What a graph is made from; the entries of a mapping stand in its order. -/
structure Definition (σ ε : Type) where
  nodes : List (String × Node σ ε)
  edges : List (String × List String)
  entry : String
  maxSteps : Nat := 12
  name : String := "agent"

namespace Definition
variable {σ ε : Type} (self : Definition σ ε)

/-- `set(self.nodes) ^ set(self.edges)`. -/
def missing : List String :=
  (keys self.nodes).filter (· ∉ keys self.edges) ++ (keys self.edges).filter (· ∉ keys self.nodes)

def unknown (targets : List String) : List String := targets.filter fun t => t ≠ END && t ∉ keys self.nodes

def checkTargets : List (String × List String) → Except GraphError Unit
  | [] => .ok ()
  | (node, targets) :: edges =>
    if self.unknown targets ≠ [] then .error (.undefinedTargets node (self.unknown targets))
    else if targets = [] then .error (.noTargets node)
    else checkTargets edges

/-- `__post_init__`. -/
def postInit : Except GraphError Unit :=
  if self.entry ∉ keys self.nodes then .error (.entryUndefined self.entry)
  else if self.missing ≠ [] then .error (.undeclaredEdges (self.missing.mergeSort (· ≤ ·)))
  else self.checkTargets self.edges

end Definition

/-- A graph that its constructor accepts. -/
structure Graph (σ ε : Type) extends Definition σ ε where
  accepted : toDefinition.postInit = .ok ()

/-- Where an exception comes from: a check of `run` itself, a node, or `on_step`. -/
inductive Origin
  | run
  | node
  | onStep

inductive Ending (ε : Type)
  | returned (steps : List Step)
  | raised (origin : Origin) (e : Exn ε)

/-- How a run ended and in what state, the names that it looked up, how the nodes that it executed ended, and the steps that
    it reported. -/
structure Walked (σ ε : Type) where
  ending : Ending ε
  state : σ
  looked : List String := []
  calls : List (String × Except (Exn ε) Next) := []
  reported : List Step := []

/-- One pass of the loop: like a whole run, with a step in place of its list of steps. -/
structure Pass (σ ε : Type) where
  result : Except (Origin × Exn ε) Step
  state : σ
  calls : List (String × Except (Exn ε) Next) := []
  reported : List Step := []

namespace Graph
variable {σ ε : Type} (self : Graph σ ε) (onStep : Step → σ → Except (Exn ε) Unit × σ)

def pass (current : String) (s : σ) : Pass σ ε :=
  match self.nodes.lookup current with
  | none => { result := .error (.run, .keyError current), state := s }
  | some node =>
    match node s with
    | (.error e, s) => { result := .error (.node, e), state := s, calls := [(current, .error e)] }
    | (.ok decision, s) =>
      match self.edges.lookup current with
      | none => { result := .error (.run, .keyError current), state := s, calls := [(current, .ok decision)] }
      | some targets =>
        if decision.node ∉ targets then
          { result := .error (.run, .graphError (.undeclaredMove current decision.node targets)), state := s
            calls := [(current, .ok decision)] }
        else
          let step := { node := current, next := decision.node, note := decision.note }
          match onStep step s with
          | (.error e, s) => { result := .error (.onStep, e), state := s, calls := [(current, .ok decision)], reported := [step] }
          | (.ok (), s) => { result := .ok step, state := s, calls := [(current, .ok decision)], reported := [step] }

/-- The loop, with what is left of the budget. -/
def loop : Nat → List Step → String → σ → Walked σ ε
  | left, steps, current, s =>
    if current = END then { ending := .returned steps, state := s }
    else
      match left with
      | 0 => { ending := .raised .run (.stepBudgetExceeded self.name self.maxSteps), state := s }
      | left + 1 =>
        let p := self.pass onStep current s
        match p.result with
        | .error (origin, e) =>
          { ending := .raised origin e, state := p.state, looked := [current], calls := p.calls, reported := p.reported }
        | .ok step =>
          let rest := loop left (steps ++ [step]) step.next p.state
          { rest with
            looked := current :: rest.looked
            calls := p.calls ++ rest.calls
            reported := p.reported ++ rest.reported }

/-- `run`. Without an `on_step`, it is one that does nothing. -/
def run (s : σ) : Walked σ ε := self.loop onStep self.maxSteps [] self.entry s

end Graph
end NexusGate.Agents
