import Mathlib.Data.Rat.Floor
import NexusGate.Agents.Nodes

/-! # The research agent

`app/agents/service.py`: the graph of the five nodes, one run of it, and the response that reports it. A run that the budget
stops is reported like one that ended. -/

namespace NexusGate.Agents
open Gateway Gateway.Chat Rag Text

structure ResearchRequest where
  question : String
  model : String := "default"
  topK : Nat := 5
  maxSearches : Nat := 3
  maxRevisions : Nat := 1
  cache : Bool := true

structure Citation where
  n : Nat
  docId : String
  title : String
  chunkIndex : Nat
  page : Option Nat
  heading : Option String
  text : String
  cited : Bool

structure ResearchResponse where
  answer : String
  citations : List Citation
  searches : List String
  steps : List Step
  revisions : Nat
  critique : Option String
  llmCalls : Nat
  costUsd : ℚ
  usage : Option Usage

/-- The number that a decimal digit stands for. -/
def digitValue (c : Char) : Nat := ((decimalZeros.find? fun d => d ≤ c.toNat && c.toNat ≤ d + 9).map (c.toNat - ·)).getD 0

/-- `int(digits)`, which refuses texts of more than 4300 digits. -/
def int (digits : List Char) : Except Failure Nat :=
  if digits.length > 4300 then .error .valueError else .ok (digits.foldl (fun n c => 10 * n + digitValue c) 0)

/-- `_CITATION.findall`: the digits in each pair of brackets with nothing else in it. -/
def citationsIn : List Char → List (List Char)
  | [] => []
  | c :: cs =>
    if c = '[' ∧ cs.takeWhile isDecimal ≠ [] ∧ (cs.dropWhile isDecimal).head? = some ']' then cs.takeWhile isDecimal :: citationsIn cs
    else citationsIn cs

def citedNumbers (answer : String) : Except Failure (List Nat) := (citationsIn answer.toList).mapM int

/-- `round(x, 8)`, ties to even. -/
def round8 (x : ℚ) : ℚ :=
  let scaled : ℚ := x * 10 ^ 8
  let n : ℤ := ⌊scaled⌋
  let r : ℚ := scaled - n
  let rounded : ℤ := if r < 1 / 2 ∨ (r = 1 / 2 ∧ n % 2 = 0) then n else n + 1
  rounded / 10 ^ 8

/-- `_response`. -/
def response (state : ResearchState) (steps : List Step) : Except Failure ResearchResponse := do
  let cited ← citedNumbers state.draft
  return {
    answer := state.draft
    citations := state.passages.mapIdx fun i h =>
      { n := i + 1, docId := h.chunk.docId, title := h.chunk.title, chunkIndex := h.chunk.chunkIndex, page := h.chunk.page
        heading := h.chunk.heading, text := h.chunk.text, cited := decide (i + 1 ∈ cited) }
    searches := state.searches
    steps
    revisions := state.revisions
    critique := state.critique
    llmCalls := state.llmCalls
    costUsd := round8 state.costUsd
    usage := if state.llmCalls = 0 then none else some ⟨state.promptTokens, state.completionTokens⟩ }

namespace ResearchAgent
variable {W : Type} (services : Services W) (maxSteps : Nat)

/-- A node of the agent as a node of the graph. -/
def node (act : Act W Next) : Node (Session W) Failure := fun s =>
  match act s with
  | (.ok decision, s) => (.ok decision, s)
  | (.error e, s) => (.error (.other e), s)

/-- `build_graph`. -/
def graph : Graph (Session W) Failure where
  name := "research"
  entry := "plan"
  nodes := [("plan", node (AgentNodes.plan services)), ("retrieve", node (AgentNodes.retrieve services)),
    ("draft", node (AgentNodes.draft services)), ("critique", node (AgentNodes.critique services)),
    ("revise", node (AgentNodes.revise services))]
  edges := [("plan", ["retrieve"]), ("retrieve", ["draft", END]), ("draft", ["critique"]), ("critique", ["revise", END]),
    ("revise", ["critique"])]
  maxSteps
  accepted := rfl

/-- What a run begins with. -/
def session (principal : Principal) (request : ResearchRequest) (world : W) : Session W where
  research :=
    { question := request.question, principal, model := request.model, topK := request.topK, maxSearches := request.maxSearches
      maxRevisions := request.maxRevisions, cache := request.cache }
  world

/-- The run of the graph; its `record` only collects the steps. -/
def walk (principal : Principal) (request : ResearchRequest) (world : W) : Walked (Session W) Failure :=
  (graph services maxSteps).run (fun _ s => (.ok (), s)) (session principal request world)

/-- What `research` makes of a run. -/
def report (w : Walked (Session W) Failure) : Except (Exn Failure) ResearchResponse :=
  match w.ending with
  | .returned _ | .raised _ (.stepBudgetExceeded _ _) => (response w.state.research w.reported).mapError .other
  | .raised _ e => .error e

def research (principal : Principal) (request : ResearchRequest) (world : W) : Except (Exn Failure) ResearchResponse :=
  report (walk services maxSteps principal request world)

end ResearchAgent
end NexusGate.Agents
