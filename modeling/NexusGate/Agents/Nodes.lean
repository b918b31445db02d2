import NexusGate.Agents.Graph
import NexusGate.Agents.Prompts
import NexusGate.Agents.State
import NexusGate.Text.Lines

/-! # The nodes of the agent

`app/agents/nodes.py`: plan, retrieve, draft, critique and revise, and what they make of the texts that a model replies
with. Of `str.upper` the tests of a reply only see which characters become `O` or `K`. -/

namespace NexusGate.Agents
open Gateway Gateway.Chat Rag Text

def NO_CONTEXT_ANSWER : String := "I couldn't find anything relevant to that question in your documents."

def MAX_QUERY_CHARS : Nat := 200

def MAX_TOKENS : Asking → Nat
  | .plan => 128
  | .draft => 512
  | .critique => 256
  | .revise => 512

/-! ## Texts -/

/-- `(?:[-*•]|\d+[.)])`: what follows a marker that the text begins with. -/
def afterMarker : List Char → Option (List Char)
  | [] => none
  | c :: cs =>
    if ['-', '*', '•'].contains c then some cs
    else
      match (c :: cs).dropWhile isDecimal with
      | d :: rest => if isDecimal c && ['.', ')'].contains d then some rest else none
      | [] => none

/-- `_LIST_MARKER.sub("", line)`. -/
def dropMarker (line : List Char) : List Char :=
  match afterMarker (line.dropWhile isSpace) with
  | some rest => rest.dropWhile isSpace
  | none => line

/-- The query of a line. -/
def lineQuery (line : List Char) : List Char := (strip (dropMarker line)).take MAX_QUERY_CHARS

def planQueries (reply : String) (maxSearches : Nat) : List String :=
  let queries := ((splitlines reply).filter fun line => !(strip line).isEmpty).map lineQuery
  ((queries.eraseDups.filter fun q => !q.isEmpty).take maxSearches).map .ofList

/-- The text of each line that is more than spaces, dashes and asterisks. -/
def issuesOf (verdict : String) : List String :=
  (((splitlines verdict).map (stripChars [' ', '-', '*'])).filter fun text => !text.isEmpty).map .ofList

/-- `_approves`. -/
def approves (verdict : String) : Bool :=
  let head := (stripChars ['.'] (strip verdict.toList)).map Char.toUpper
  ['O', 'K'].isPrefixOf head || (strip verdict.toList).isEmpty

/-- `_not_an_answer`. -/
def notAnAnswer (revision : String) : Bool :=
  let word := (stripChars ['.', '!'] (strip revision.toList)).map Char.toUpper
  word == [] || word == ['O', 'K']

/-- The letters of "OK", large or small. -/
def Okay (o k : Char) : Prop := (o = 'O' ∨ o = 'o') ∧ (k = 'K' ∨ k = 'k')

theorem okay_iff {o k : Char} : Okay o k ↔ o.toUpper = 'O' ∧ k.toUpper = 'K' :=
  (and_congr (toUpper_eq_iff rfl (by decide)) (toUpper_eq_iff rfl (by decide))).symm

/-- An empty verdict approves, and one that begins with "OK" once the dots at its ends are gone. -/
theorem approves_iff {verdict : String} : approves verdict = true ↔
    strip verdict.toList = [] ∨ ∃ o k rest, stripChars ['.'] (strip verdict.toList) = o :: k :: rest ∧ Okay o k := by
  rw [approves, Bool.or_eq_true, List.isEmpty_iff, List.isPrefixOf_iff_prefix, or_comm]
  refine or_congr_right ⟨?_, ?_⟩
  · rintro ⟨rest, hrest⟩
    obtain ⟨o, tail, htext, ho, htail⟩ := List.map_eq_cons_iff.mp hrest.symm
    obtain ⟨k, rest, rfl, hk, -⟩ := List.map_eq_cons_iff.mp htail
    exact ⟨o, k, rest, htext, okay_iff.mpr ⟨ho, hk⟩⟩
  · rintro ⟨o, k, rest, htext, hokay⟩
    obtain ⟨ho, hk⟩ := okay_iff.mp hokay
    rw [htext]
    exact ⟨rest.map Char.toUpper, by rw [List.map_cons, List.map_cons, ho, hk]; rfl⟩

/-- A revision is no answer if nothing, or "OK" alone, is left of it without the dots and exclamation marks at its ends. -/
theorem notAnAnswer_iff {revision : String} : notAnAnswer revision = true ↔
    stripChars ['.', '!'] (strip revision.toList) = [] ∨
      ∃ o k, stripChars ['.', '!'] (strip revision.toList) = [o, k] ∧ Okay o k := by
  rw [notAnAnswer, Bool.or_eq_true, beq_iff_eq, beq_iff_eq, List.map_eq_nil_iff]
  refine or_congr_right ⟨fun h => ?_, ?_⟩
  · obtain ⟨o, tail, htext, ho, htail⟩ := List.map_eq_cons_iff.mp h
    obtain ⟨k, rest, rfl, hk, hrest⟩ := List.map_eq_cons_iff.mp htail
    obtain rfl := List.map_eq_nil_iff.mp hrest
    exact ⟨o, k, htext, okay_iff.mpr ⟨ho, hk⟩⟩
  · rintro ⟨o, k, htext, hokay⟩
    obtain ⟨ho, hk⟩ := okay_iff.mp hokay
    rw [htext, List.map_cons, List.map_cons, ho, hk]
    rfl

def label (h : RetrievedChunk) : String :=
  ", ".intercalate (h.chunk.title :: h.chunk.page.toList.map fun page => s!"p. {page}")

def formatContext (passages : List RetrievedChunk) : String :=
  "\n\n".intercalate (passages.mapIdx fun i h => s!"[{i + 1}] (" ++ label h ++ ")\n" ++ h.chunk.text)

/-! ## Passages -/

/-- `_score`. -/
def score (h : RetrievedChunk) : ℚ := h.rerankScore.getD h.vectorScore

def key (h : RetrievedChunk) : String × Nat := (h.chunk.docId, h.chunk.chunkIndex)

/-- `if key not in best or _score(hit) > _score(best[key]): best[key] = hit`, on the values of `best`. -/
def keep (best : List RetrievedChunk) (hit : RetrievedChunk) : List RetrievedChunk :=
  match best with
  | [] => [hit]
  | h :: best => if key h = key hit then (if score h < score hit then hit else h) :: best else h :: keep best hit

/-- `sorted(best.values(), key=_score, reverse=True)[: top_k]`. -/
def top (topK : Nat) (best : List RetrievedChunk) : List RetrievedChunk :=
  (best.mergeSort fun a b => decide (score b ≤ score a)).take topK

/-! ## Nodes -/

/-- The totals of a run after one more completion. -/
def ResearchState.charged (s : ResearchState) (r : ChatResponse) : ResearchState :=
  { s with
    llmCalls := s.llmCalls + 1
    promptTokens := s.promptTokens + r.usage.promptTokens
    completionTokens := s.completionTokens + r.usage.completionTokens
    costUsd := s.costUsd + r.nexusgate.costUsd }

namespace AgentNodes
variable {W : Type} (services : Services W)

/-- `self._chat.complete(..)`, whose answer counts as soon as it is there. -/
def complete (asking : Asking) (request : ChatRequest) : Act W ChatResponse := fun s =>
  match services.complete s.research.principal request s.world with
  | (.ok r, world) =>
    (.ok r, { research := s.research.charged r, world, replies := s.replies ++ [(asking, r)] })
  | (.error e, world) => (.error e, { s with world })

/-- `_ask`. -/
def ask (asking : Asking) (system user : String) : Act W (String × String) := do
  let state ← Act.state
  let response ← complete services asking
    { model := state.model
      messages := [{ role := .system, content := system }, { role := .user, content := user }]
      maxTokens := some (MAX_TOKENS asking)
      cache := state.cache
      nonempty := List.cons_ne_nil _ _ }
  let cut := if response.finishReason = "length" then s!", cut at {MAX_TOKENS asking} tokens" else ""
  return (stripped response.content, cut)

def plan : Act W Next := do
  let state ← Act.state
  let (reply, cut) ← (ask services .plan (Prompts.planSystem state.maxSearches) state.question).orElse (pure ("", ""))
  let queries := planQueries reply state.maxSearches
  let searches := if queries = [] then [state.question] else queries
  Act.modify fun s => { s with searches }
  return { node := "retrieve", note := some s!"{searches.length} search(es){cut}" }

def search (query : String) : Act W (List RetrievedChunk) := fun s =>
  match services.search s.research.principal.tenantId query s.research.topK true s.world with
  | (outcome, world) => (outcome, { s with world })

/-- The loop over the searches. -/
def merge : List String → List RetrievedChunk → Act W (List RetrievedChunk)
  | [], best => pure best
  | query :: searches, best => do
    let hits ← search services query
    merge searches (hits.foldl keep best)

def retrieve : Act W Next := do
  let state ← Act.state
  let best ← merge services state.searches []
  let passages := top state.topK best
  Act.modify fun s => { s with passages }
  if passages = [] then
    Act.modify fun s => { s with draft := NO_CONTEXT_ANSWER }
    return { node := END, note := some "nothing matched" }
  return { node := "draft", note := some s!"{passages.length} passage(s)" }

def draft : Act W Next := do
  let state ← Act.state
  let (draft, cut) ← ask services .draft (Prompts.draftSystem (formatContext state.passages)) state.question
  Act.modify fun s => { s with draft }
  return { node := "critique", note := some s!"{draft.length} chars{cut}" }

/-- What `critique` makes of a verdict. -/
def review (verdict cut : String) : Act W Next := do
  Act.modify fun s => { s with critique := some verdict, issues := issuesOf verdict }
  if approves verdict then
    Act.modify fun s => { s with issues := [] }
    return { node := END, note := some s!"approved{cut}" }
  if issuesOf verdict = [] then return { node := END, note := some s!"no usable review{cut}" }
  return { node := "revise", note := some s!"{(issuesOf verdict).length} issue(s){cut}" }

def critique : Act W Next := do
  let state ← Act.state
  if state.maxRevisions ≤ state.revisions then return { node := END, note := some "revision budget spent" }
  let verdict ← (some <$> ask services .critique (Prompts.critiqueSystem (formatContext state.passages))
    (Prompts.critiqueUser state.question state.draft)).orElse (pure none)
  match verdict with
  | none => return { node := END, note := some "critique unavailable" }
  | some (verdict, cut) => review verdict cut

def revise : Act W Next := do
  let state ← Act.state
  let (revised, cut) ← ask services .revise (Prompts.reviseSystem (formatContext state.passages))
    (Prompts.reviseUser state.question state.draft ("\n".intercalate (state.issues.map fun i => "- " ++ i)))
  Act.modify fun s => { s with revisions := s.revisions + 1 }
  if notAnAnswer revised then return { node := "critique", note := some s!"revision {state.revisions + 1} discarded{cut}" }
  Act.modify fun s => { s with draft := revised }
  return { node := "critique", note := some s!"revision {state.revisions + 1}{cut}" }

end AgentNodes
end NexusGate.Agents
