import NexusGate.Agents.Service
import NexusGate.Theorems.Agents.Graph

/-! # An agent run is bounded

Where a run stands tells how many steps it has made and how many completions it can have had, given the revisions so far; the
totals are those of the completions, and the draft is the last answer among them. -/

namespace NexusGate.Agents
open Gateway Gateway.Chat Rag Text

/-! ### The bill and the answer -/

section Bill
variable {W : Type} {s t : Session W}

/-- The answer that a completion brings: a draft, or a revision that is one. -/
def answerOf : Asking × ChatResponse → Option String
  | (.draft, r) => some (stripped r.content)
  | (.revise, r) => if notAnAnswer (stripped r.content) then none else some (stripped r.content)
  | (.plan, _) | (.critique, _) => none

/-- The draft, or the last revision that was one. -/
def lastAnswer (replies : List (Asking × ChatResponse)) : Option String := (replies.filterMap answerOf).getLast?

/-- The totals of a run are the sums over its completions. -/
structure Billed (s : Session W) : Prop where
  llmCalls : s.research.llmCalls = s.replies.length
  promptTokens : s.research.promptTokens = (s.replies.map fun reply => reply.2.usage.promptTokens).sum
  completionTokens : s.research.completionTokens = (s.replies.map fun reply => reply.2.usage.completionTokens).sum
  costUsd : s.research.costUsd = (s.replies.map fun reply => reply.2.nexusgate.costUsd).sum

/-- The same totals. -/
def SameBill (a b : ResearchState) : Prop :=
  a.llmCalls = b.llmCalls ∧ a.promptTokens = b.promptTokens ∧ a.completionTokens = b.completionTokens ∧ a.costUsd = b.costUsd

theorem Billed.same (B : Billed s) (h : SameBill t.research s.research) (hreplies : t.replies = s.replies) : Billed t where
  llmCalls := by rw [h.1, hreplies, B.llmCalls]
  promptTokens := by rw [h.2.1, hreplies, B.promptTokens]
  completionTokens := by rw [h.2.2.1, hreplies, B.completionTokens]
  costUsd := by rw [h.2.2.2, hreplies, B.costUsd]

theorem Billed.charged (B : Billed s) {asking : Asking} {r : ChatResponse} (h : SameBill t.research (s.research.charged r))
    (hreplies : t.replies = s.replies ++ [(asking, r)]) : Billed t where
  llmCalls := by rw [h.1, hreplies, List.length_append, ← B.llmCalls]; rfl
  promptTokens := by rw [h.2.1, hreplies, List.map_append, List.sum_append, ← B.promptTokens, List.map_singleton, List.sum_singleton]; rfl
  completionTokens := by
    rw [h.2.2.1, hreplies, List.map_append, List.sum_append, ← B.completionTokens, List.map_singleton, List.sum_singleton]
    rfl
  costUsd := by rw [h.2.2.2, hreplies, List.map_append, List.sum_append, ← B.costUsd, List.map_singleton, List.sum_singleton]; rfl

theorem lastAnswer_append {replies : List (Asking × ChatResponse)} {reply : Asking × ChatResponse} :
    lastAnswer (replies ++ [reply]) = (answerOf reply).or (lastAnswer replies) := by
  rw [lastAnswer, List.filterMap_append, lastAnswer, List.getLast?_append]
  cases h : answerOf reply <;> simp [h]

end Bill

/-! ### What the nodes do -/

section Nodes
variable {W : Type} {services : Services W} {s t : Session W} {outcome : Except Failure Next}

theorem ask_cases (services : Services W) (asking : Asking) (system user : String) (s : Session W) :
    (∃ e world, AgentNodes.ask services asking system user s = (.error e, { s with world })) ∨
      ∃ r cut world, AgentNodes.ask services asking system user s = (.ok (stripped r.content, cut),
        { research := s.research.charged r, world, replies := s.replies ++ [(asking, r)] }) := by
  rw [AgentNodes.ask, Act.state_bind]
  generalize hrequest : ({ model := s.research.model, messages := _, maxTokens := _, cache := _, nonempty := _ } : ChatRequest) = request
  cases hout : services.complete s.research.principal request s.world with
  | mk outcome world =>
    cases outcome with
    | error e =>
      have hcomplete : AgentNodes.complete services asking request s = (.error e, { s with world }) := by
        rw [AgentNodes.complete, hout]
      exact .inl ⟨e, world, Act.bind_error hcomplete⟩
    | ok r =>
      have hcomplete : AgentNodes.complete services asking request s =
          (.ok r, { research := s.research.charged r, world, replies := s.replies ++ [(asking, r)] }) := by
        rw [AgentNodes.complete, hout]
      exact .inr ⟨r, _, world, Act.bind_ok hcomplete⟩

/-- A plan goes on to the retrieval, with a completion or without. -/
theorem plan_cases (h : AgentNodes.plan services s = (outcome, t)) :
    (∃ e, outcome = .error e ∧ e.doomed) ∨ ∃ note searches, outcome = .ok { node := "retrieve", note } ∧
      ((t.research = { s.research with searches } ∧ t.replies = s.replies) ∨
        ∃ r, t.research = { s.research.charged r with searches } ∧ t.replies = s.replies ++ [(.plan, r)]) := by
  rw [AgentNodes.plan, Act.state_bind] at h
  rcases ask_cases services .plan (Prompts.planSystem s.research.maxSearches) s.research.question s with
    ⟨e, world, hask⟩ | ⟨r, cut, world, hask⟩
  · rcases @Act.orElse_error W _ _ _ _ ("", "") e hask with ⟨hdoomed, htry⟩ | htry
    · rw [Act.bind_error htry] at h
      cases h
      exact .inl ⟨e, rfl, hdoomed⟩
    · rw [Act.bind_ok htry] at h
      cases h
      exact .inr ⟨_, _, rfl, .inl ⟨rfl, rfl⟩⟩
  · rw [Act.bind_ok (Act.orElse_ok hask)] at h
    cases h
    exact .inr ⟨_, _, rfl, .inr ⟨r, rfl, rfl⟩⟩

theorem search_cases (services : Services W) (query : String) (s : Session W) : ∃ outcome world, AgentNodes.search services query s = (outcome, { s with world }) :=
  ⟨_, _, rfl⟩

theorem merge_cases {queries : List String} {best : List RetrievedChunk} :
    ∃ outcome world, AgentNodes.merge services queries best s = (outcome, { s with world }) := by
  induction queries generalizing best s with
  | nil => exact ⟨.ok best, s.world, rfl⟩
  | cons query queries ih =>
    rw [AgentNodes.merge]
    obtain ⟨outcome, world, hsearch⟩ := search_cases services query s
    cases outcome with
    | error e => exact ⟨.error e, world, Act.bind_error hsearch⟩
    | ok hits =>
      obtain ⟨outcome', world', hmerge⟩ := @ih { s with world } (hits.foldl keep best)
      exact ⟨outcome', world', (Act.bind_ok hsearch).trans hmerge⟩

/-- A retrieval ends the run without passages, and goes on to a draft with some. -/
theorem retrieve_cases (h : AgentNodes.retrieve services s = (outcome, t)) :
    (∃ e, outcome = .error e) ∨ t.replies = s.replies ∧
      ((∃ note, outcome = .ok { node := END, note } ∧
          t.research = { s.research with passages := [], draft := NO_CONTEXT_ANSWER }) ∨
        ∃ note passages, outcome = .ok { node := "draft", note } ∧ passages ≠ [] ∧ t.research = { s.research with passages }) := by
  obtain ⟨merged, world, hmerge⟩ := @merge_cases W services s s.research.searches []
  rw [AgentNodes.retrieve, Act.state_bind] at h
  cases merged with
  | error e =>
    rw [Act.bind_error hmerge] at h
    cases h
    exact .inl ⟨e, rfl⟩
  | ok best =>
    rw [Act.bind_ok hmerge] at h
    simp only [Act.modify_bind] at h
    split at h
    · rename_i hnil
      rw [Act.modify_bind, hnil] at h
      cases h
      exact .inr ⟨rfl, .inl ⟨_, rfl, rfl⟩⟩
    · rename_i hne
      cases h
      exact .inr ⟨rfl, .inr ⟨_, _, rfl, hne, rfl⟩⟩

theorem draft_cases (h : AgentNodes.draft services s = (outcome, t)) :
    (∃ e, outcome = .error e) ∨ ∃ note r, outcome = .ok { node := "critique", note } ∧
      t.research = { s.research.charged r with draft := stripped r.content } ∧ t.replies = s.replies ++ [(.draft, r)] := by
  rw [AgentNodes.draft, Act.state_bind] at h
  rcases ask_cases services .draft (Prompts.draftSystem (formatContext s.research.passages)) s.research.question s with
    ⟨e, world, hask⟩ | ⟨r, cut, world, hask⟩
  · rw [Act.bind_error hask] at h
    cases h
    exact .inl ⟨e, rfl⟩
  · rw [Act.bind_ok hask] at h
    cases h
    exact .inr ⟨_, r, rfl, rfl, rfl⟩

theorem review_state (verdict cut : String) (s : Session W) : ∃ node note issues, (node = END ∨ node = "revise") ∧
    AgentNodes.review verdict cut s =
      (.ok { node, note }, { s with research := { s.research with critique := some verdict, issues } }) := by
  rw [AgentNodes.review, Act.modify_bind]
  cases approves verdict with
  | true => exact ⟨END, _, [], .inl rfl, rfl⟩
  | false =>
    by_cases hissues : issuesOf verdict = []
    · refine ⟨END, some s!"no usable review{cut}", issuesOf verdict, .inl rfl, ?_⟩
      rw [if_neg Bool.false_ne_true, if_pos hissues]
      rfl
    · refine ⟨"revise", some s!"{(issuesOf verdict).length} issue(s){cut}", issuesOf verdict, .inr rfl, ?_⟩
      rw [if_neg Bool.false_ne_true, if_neg hissues]
      rfl

/-- A review ends the run, without a completion too; only with one, and while revisions are left, it asks for a revision. -/
theorem critique_cases (h : AgentNodes.critique services s = (outcome, t)) :
    (∃ e, outcome = .error e ∧ e.doomed) ∨
      (∃ note, outcome = .ok { node := END, note } ∧ t.research = s.research ∧ t.replies = s.replies) ∨
      (s.research.revisions < s.research.maxRevisions ∧ ∃ node note issues r, outcome = .ok { node, note } ∧
        (node = END ∨ node = "revise") ∧
        t.research = { s.research.charged r with critique := some (stripped r.content), issues } ∧
        t.replies = s.replies ++ [(.critique, r)]) := by
  rw [AgentNodes.critique, Act.state_bind] at h
  split at h
  · cases h
    exact .inr (.inl ⟨_, rfl, rfl, rfl⟩)
  rename_i hleft
  rcases ask_cases services .critique (Prompts.critiqueSystem (formatContext s.research.passages))
    (Prompts.critiqueUser s.research.question s.research.draft) s with ⟨e, world, hask⟩ | ⟨r, cut, world, hask⟩
  · have hsome : (some <$> AgentNodes.ask services .critique (Prompts.critiqueSystem (formatContext s.research.passages))
        (Prompts.critiqueUser s.research.question s.research.draft)) s = (.error e, { s with world }) := Act.bind_error hask
    rcases @Act.orElse_error W _ _ _ _ none e hsome with ⟨hdoomed, htry⟩ | htry
    · rw [Act.bind_error htry] at h
      cases h
      exact .inl ⟨e, rfl, hdoomed⟩
    · rw [Act.bind_ok htry] at h
      cases h
      exact .inr (.inl ⟨_, rfl, rfl, rfl⟩)
  · have hsome : (some <$> AgentNodes.ask services .critique (Prompts.critiqueSystem (formatContext s.research.passages))
        (Prompts.critiqueUser s.research.question s.research.draft)) s = (.ok (some (stripped r.content, cut)), _) :=
      Act.bind_ok hask
    rw [Act.bind_ok (Act.orElse_ok hsome)] at h
    obtain ⟨node, note, issues, hnode, hreview⟩ := review_state (stripped r.content) cut
      { research := s.research.charged r, world, replies := s.replies ++ [(.critique, r)] }
    dsimp only at h
    rw [hreview] at h
    cases h
    exact .inr (.inr ⟨Nat.lt_of_not_le hleft, node, note, issues, r, rfl, hnode, rfl, rfl⟩)

theorem revise_cases (h : AgentNodes.revise services s = (outcome, t)) :
    (∃ e, outcome = .error e) ∨ ∃ note r, outcome = .ok { node := "critique", note } ∧ t.replies = s.replies ++ [(.revise, r)] ∧
      t.research = { s.research.charged r with
        revisions := s.research.revisions + 1
        draft := if notAnAnswer (stripped r.content) then s.research.draft else stripped r.content } := by
  rw [AgentNodes.revise, Act.state_bind] at h
  rcases ask_cases services .revise (Prompts.reviseSystem (formatContext s.research.passages))
    (Prompts.reviseUser s.research.question s.research.draft ("\n".intercalate (s.research.issues.map fun i => "- " ++ i))) s with
    ⟨e, world, hask⟩ | ⟨r, cut, world, hask⟩
  · rw [Act.bind_error hask] at h
    cases h
    exact .inl ⟨e, rfl⟩
  · rw [Act.bind_ok hask] at h
    simp only [Act.modify_bind] at h
    split at h
    · rename_i hnot
      cases h
      exact .inr ⟨_, r, rfl, rfl, by rw [if_pos hnot]; rfl⟩
    · rename_i hanswer
      cases h
      exact .inr ⟨_, r, rfl, rfl, by rw [if_neg hanswer]; rfl⟩

end Nodes

/-! ### Where a run stands -/

section Invariant
variable {W : Type} {services : Services W} {m maxSteps n : Nat} {s t : Session W} {current : String}

/-- Where a run can stand. -/
inductive Place
  | plan
  | retrieve
  | draft
  | critique
  | revise
  | done

/-- The node's name in the graph. -/
def Place.name : Place → String
  | .plan => "plan"
  | .retrieve => "retrieve"
  | .draft => "draft"
  | .critique => "critique"
  | .revise => "revise"
  | .done => END

/-- What holds of a run with `m` revisions after `n` steps. -/
inductive Stands (m : Nat) : Nat → Place → Session W → Prop
  | plan {s : Session W} (revisions : s.research.revisions = 0) (replies : s.replies = []) (draft : s.research.draft = "") :
      Stands m 0 .plan s
  | retrieve {s : Session W} (revisions : s.research.revisions = 0) (replies : s.replies.length ≤ 1)
      (unanswered : lastAnswer s.replies = none) (draft : s.research.draft = "") : Stands m 1 .retrieve s
  | draft {s : Session W} (revisions : s.research.revisions = 0) (replies : s.replies.length ≤ 1)
      (unanswered : lastAnswer s.replies = none) (draft : s.research.draft = "") (passages : s.research.passages ≠ []) :
      Stands m 2 .draft s
  | critique {n : Nat} {s : Session W} (steps : n = 3 + 2 * s.research.revisions) (revisions : s.research.revisions ≤ m)
      (replies : s.replies.length ≤ 2 + 2 * s.research.revisions) (answered : lastAnswer s.replies = some s.research.draft)
      (passages : s.research.passages ≠ []) : Stands m n .critique s
  | revise {n : Nat} {s : Session W} (steps : n = 4 + 2 * s.research.revisions) (revisions : s.research.revisions < m)
      (replies : s.replies.length ≤ 3 + 2 * s.research.revisions) (answered : lastAnswer s.replies = some s.research.draft)
      (passages : s.research.passages ≠ []) : Stands m n .revise s
  | done {n : Nat} {s : Session W} (steps : n ≤ 4 + 2 * m) (revisions : s.research.revisions ≤ m)
      (replies : s.replies.length ≤ 2 + 2 * m)
      (answer : s.research.passages = [] ∧ s.research.draft = NO_CONTEXT_ANSWER ∨
        s.research.passages ≠ [] ∧ lastAnswer s.replies = some s.research.draft) : Stands m n .done s

/-- The invariant of a run. -/
structure Runs (m : Nat) (n : Nat) (place : Place) (s : Session W) : Prop where
  maxRevisions : s.research.maxRevisions = m
  billed : Billed s
  stands : Stands m n place s

/-- What a run fails with, and where: a failure that dooms it, or one of a step that has nothing to fall back on. -/
def FailsAt (name : String) (e : Exn Failure) : Prop :=
  ∃ failure, e = .other failure ∧ (failure.doomed ∨ name ∈ ["retrieve", "draft", "revise"])

section Step
variable {decision : Next}

theorem plan_runs (h : Runs m n .plan s) (hplan : AgentNodes.plan services s = (.ok decision, t)) :
    decision.node = "retrieve" ∧ Runs m (n + 1) .retrieve t := by
  obtain ⟨hmax, hbilled, hstands⟩ := h
  cases hstands with
  | plan revisions replies draft =>
    rcases plan_cases hplan with ⟨e, heq, -⟩ | ⟨note, searches, heq, ⟨hresearch, hreplies⟩ | ⟨r, hresearch, hreplies⟩⟩
    · cases heq
    · cases heq
      refine ⟨rfl, by rw [hresearch, ← hmax], hbilled.same (hresearch ▸ ⟨rfl, rfl, rfl, rfl⟩) hreplies, ?_⟩
      rw [replies] at hreplies
      exact .retrieve (by rw [hresearch]; exact revisions) (by rw [hreplies]; exact Nat.zero_le _) (by rw [hreplies]; rfl)
        (by rw [hresearch]; exact draft)
    · cases heq
      refine ⟨rfl, by rw [hresearch, ← hmax]; rfl, hbilled.charged (hresearch ▸ ⟨rfl, rfl, rfl, rfl⟩) hreplies, ?_⟩
      rw [replies] at hreplies
      exact .retrieve (by rw [hresearch]; exact revisions) (by rw [hreplies]; exact Nat.le_refl _) (by rw [hreplies]; rfl)
        (by rw [hresearch]; exact draft)

theorem retrieve_runs (h : Runs m n .retrieve s) (hretrieve : AgentNodes.retrieve services s = (.ok decision, t)) :
    decision.node = "draft" ∧ Runs m (n + 1) .draft t ∨ decision.node = END ∧ Runs m (n + 1) .done t := by
  obtain ⟨hmax, hbilled, hstands⟩ := h
  cases hstands with
  | retrieve revisions replies unanswered draft =>
    rcases retrieve_cases hretrieve with ⟨e, heq⟩ | ⟨hreplies, ⟨note, heq, hresearch⟩ | ⟨note, passages, heq, hne, hresearch⟩⟩
    · cases heq
    · cases heq
      refine .inr ⟨rfl, by rw [hresearch, ← hmax], hbilled.same (hresearch ▸ ⟨rfl, rfl, rfl, rfl⟩) hreplies, .done ?_ ?_ ?_ ?_⟩
      · omega
      · rw [hresearch]
        exact revisions.trans_le (Nat.zero_le m)
      · rw [hreplies]
        omega
      · rw [hresearch]
        exact .inl ⟨rfl, rfl⟩
    · cases heq
      refine .inl ⟨rfl, by rw [hresearch, ← hmax], hbilled.same (hresearch ▸ ⟨rfl, rfl, rfl, rfl⟩) hreplies, .draft ?_ ?_ ?_ ?_ ?_⟩
      · rw [hresearch]
        exact revisions
      · rw [hreplies]
        exact replies
      · rw [hreplies]
        exact unanswered
      · rw [hresearch]
        exact draft
      · rw [hresearch]
        exact hne

theorem draft_runs (h : Runs m n .draft s) (hdraft : AgentNodes.draft services s = (.ok decision, t)) :
    decision.node = "critique" ∧ Runs m (n + 1) .critique t := by
  obtain ⟨hmax, hbilled, hstands⟩ := h
  cases hstands with
  | draft revisions replies unanswered draft passages =>
    rcases draft_cases hdraft with ⟨e, heq⟩ | ⟨note, r, heq, hresearch, hreplies⟩
    · cases heq
    cases heq
    refine ⟨rfl, by rw [hresearch, ← hmax]; rfl, hbilled.charged (hresearch ▸ ⟨rfl, rfl, rfl, rfl⟩) hreplies, ?_⟩
    have hrevisions : t.research.revisions = 0 := by
      rw [hresearch]
      exact revisions
    refine .critique (by omega) (hrevisions.trans_le (Nat.zero_le m)) ?_ ?_ ?_
    · rw [hreplies, List.length_append, List.length_singleton]
      omega
    · rw [hreplies, lastAnswer_append, hresearch]
      rfl
    · rw [hresearch]
      exact passages

/-- A review ends the run, or asks for a revision while some are left. -/
theorem critique_runs (h : Runs m n .critique s) (hcritique : AgentNodes.critique services s = (.ok decision, t)) :
    decision.node = "revise" ∧ Runs m (n + 1) .revise t ∨ decision.node = END ∧ Runs m (n + 1) .done t := by
  obtain ⟨hmax, hbilled, hstands⟩ := h
  cases hstands with
  | critique steps revisions replies answered passages =>
    rcases critique_cases hcritique with
      ⟨e, heq, -⟩ | ⟨note, heq, hresearch, hreplies⟩ | ⟨hleft, node, note, issues, r, heq, hnode, hresearch, hreplies⟩
    · cases heq
    · cases heq
      refine .inr ⟨rfl, by rw [hresearch, ← hmax], hbilled.same (hresearch ▸ ⟨rfl, rfl, rfl, rfl⟩) hreplies, .done ?_ ?_ ?_ ?_⟩
      · omega
      · rw [hresearch]
        exact revisions
      · rw [hreplies]
        omega
      · rw [hresearch, hreplies]
        exact .inr ⟨passages, answered⟩
    · rw [hmax] at hleft
      have hrevisions : t.research.revisions = s.research.revisions := by
        rw [hresearch]
        rfl
      have hlength : t.replies.length = s.replies.length + 1 := by rw [hreplies, List.length_append, List.length_singleton]
      have hpassages : t.research.passages ≠ [] := by
        rw [hresearch]
        exact passages
      have hanswered : lastAnswer t.replies = some t.research.draft := by
        rw [hreplies, lastAnswer_append, hresearch]
        exact answered
      cases heq
      have hkept : t.research.maxRevisions = m ∧ Billed t :=
        ⟨by rw [hresearch, ← hmax]; rfl, hbilled.charged (hresearch ▸ ⟨rfl, rfl, rfl, rfl⟩) hreplies⟩
      rcases hnode with rfl | rfl
      · refine .inr ⟨rfl, hkept.1, hkept.2, .done ?_ ?_ ?_ (.inr ⟨hpassages, hanswered⟩)⟩
        · omega
        · omega
        · omega
      · exact .inl ⟨rfl, hkept.1, hkept.2, .revise (by omega) (by omega) (by omega) hanswered hpassages⟩

theorem revise_runs (h : Runs m n .revise s) (hrevise : AgentNodes.revise services s = (.ok decision, t)) :
    decision.node = "critique" ∧ Runs m (n + 1) .critique t := by
  obtain ⟨hmax, hbilled, hstands⟩ := h
  cases hstands with
  | revise steps revisions replies answered passages =>
    rcases revise_cases hrevise with ⟨e, heq⟩ | ⟨note, r, heq, hreplies, hresearch⟩
    · cases heq
    cases heq
    have hrevisions : t.research.revisions = s.research.revisions + 1 := by rw [hresearch]
    have hlength : t.replies.length = s.replies.length + 1 := by rw [hreplies, List.length_append, List.length_singleton]
    have hanswered : lastAnswer t.replies = some t.research.draft := by
      rw [hreplies, lastAnswer_append, hresearch, answerOf]
      split
      · exact answered
      · rfl
    have hpassages : t.research.passages ≠ [] := by
      rw [hresearch]
      exact passages
    refine ⟨rfl, by rw [hresearch, ← hmax]; rfl, hbilled.charged (hresearch ▸ ⟨rfl, rfl, rfl, rfl⟩) hreplies, ?_⟩
    exact .critique (by omega) (by omega) (by omega) hanswered hpassages

end Step

/-! ### The graph -/

section Graph
variable {x : Act W Next} {decision : Next} {e : Exn Failure}

theorem node_ok (h : ResearchAgent.node x s = (.ok decision, t)) : x s = (.ok decision, t) := by
  rw [ResearchAgent.node] at h
  split at h
  · rename_i heq
    cases h
    exact heq
  · cases h

theorem node_error (h : ResearchAgent.node x s = (.error e, t)) : ∃ failure, e = .other failure ∧ x s = (.error failure, t) := by
  rw [ResearchAgent.node] at h
  split at h
  · cases h
  · rename_i failure _ heq
    cases h
    exact ⟨failure, rfl, heq⟩

/-- The node of a place. -/
def Place.act (services : Services W) : Place → Option (Act W Next)
  | .plan => some (AgentNodes.plan services)
  | .retrieve => some (AgentNodes.retrieve services)
  | .draft => some (AgentNodes.draft services)
  | .critique => some (AgentNodes.critique services)
  | .revise => some (AgentNodes.revise services)
  | .done => none

theorem lookup_place (place : Place) :
    (ResearchAgent.graph services maxSteps).nodes.lookup place.name = (place.act services).map ResearchAgent.node := by
  cases place <;> rfl

/-- The run stands at the place that has this name. -/
def RunsAt (m : Nat) (n : Nat) (current : String) (s : Session W) : Prop := ∃ place : Place, place.name = current ∧ Runs m n place s

theorem graph_keeps :
    (ResearchAgent.graph services maxSteps).Keeps (RunsAt m) fun name e _ => FailsAt name e where
  decided := by
    rintro n _ node s s' decision hnode ⟨place, rfl, hruns⟩ hout
    rw [lookup_place] at hnode
    cases place with
    | plan =>
      cases hnode
      obtain ⟨hdecision, hruns⟩ := plan_runs hruns (node_ok hout)
      exact ⟨hdecision ▸ List.mem_cons_self, .retrieve, hdecision.symm, hruns⟩
    | retrieve =>
      cases hnode
      rcases retrieve_runs hruns (node_ok hout) with ⟨hdecision, hruns⟩ | ⟨hdecision, hruns⟩
      · exact ⟨hdecision ▸ List.mem_cons_self, .draft, hdecision.symm, hruns⟩
      · exact ⟨hdecision ▸ List.mem_cons_of_mem _ List.mem_cons_self, .done, hdecision.symm, hruns⟩
    | draft =>
      cases hnode
      obtain ⟨hdecision, hruns⟩ := draft_runs hruns (node_ok hout)
      exact ⟨hdecision ▸ List.mem_cons_self, .critique, hdecision.symm, hruns⟩
    | critique =>
      cases hnode
      rcases critique_runs hruns (node_ok hout) with ⟨hdecision, hruns⟩ | ⟨hdecision, hruns⟩
      · exact ⟨hdecision ▸ List.mem_cons_self, .revise, hdecision.symm, hruns⟩
      · exact ⟨hdecision ▸ List.mem_cons_of_mem _ List.mem_cons_self, .done, hdecision.symm, hruns⟩
    | revise =>
      cases hnode
      obtain ⟨hdecision, hruns⟩ := revise_runs hruns (node_ok hout)
      exact ⟨hdecision ▸ List.mem_cons_self, .critique, hdecision.symm, hruns⟩
    | done => cases hnode
  raised := by
    rintro n _ node s s' e hnode ⟨place, rfl, hruns⟩ hout
    rw [lookup_place] at hnode
    cases place with
    | plan =>
      cases hnode
      obtain ⟨failure, rfl, hplan⟩ := node_error hout
      rcases plan_cases hplan with ⟨_, heq, hdoomed⟩ | ⟨_, _, heq, -⟩
      · cases heq
        exact ⟨failure, rfl, .inl hdoomed⟩
      · cases heq
    | critique =>
      cases hnode
      obtain ⟨failure, rfl, hcritique⟩ := node_error hout
      rcases critique_cases hcritique with ⟨_, heq, hdoomed⟩ | ⟨_, heq, -⟩ | ⟨-, _, _, _, _, heq, -⟩
      · cases heq
        exact ⟨failure, rfl, .inl hdoomed⟩
      · cases heq
      · cases heq
    | retrieve | draft | revise =>
      cases hnode
      obtain ⟨failure, rfl, -⟩ := node_error hout
      exact ⟨failure, rfl, .inr (by decide)⟩
    | done => cases hnode

end Graph

/-! ### A whole run -/

/-- What a response reports of a run, with the cost put like this. -/
structure Reported (cost : ℚ → ℚ) (w : Walked (Session W) Failure) (r : ResearchResponse) : Prop where
  llmCalls : r.llmCalls = w.state.replies.length
  usage : r.usage = if w.state.replies = [] then none else
    some ⟨(w.state.replies.map fun reply => reply.2.usage.promptTokens).sum,
      (w.state.replies.map fun reply => reply.2.usage.completionTokens).sum⟩
  costUsd : r.costUsd = cost (w.state.replies.map fun reply => reply.2.nexusgate.costUsd).sum
  steps : r.steps = w.reported
  revisions : r.revisions = w.state.research.revisions

/-- A run with these budgets is bounded, and what it results in reports it. -/
structure BoundedRun (cost : ℚ → ℚ) (maxSteps maxRevisions : Nat) (w : Walked (Session W) Failure)
    (result : Except (Exn Failure) ResearchResponse) : Prop where
  finishes : (∃ steps, w.ending = .returned steps) ∨
    (∃ name e, w.ending = .raised .node e ∧ w.calls.getLast? = some (name, .error e) ∧ FailsAt name e ∧ result = .error e) ∨
    (maxSteps < 4 + 2 * maxRevisions ∧ w.calls.length = maxSteps ∧
      ∃ name n, w.ending = .raised .run (.stepBudgetExceeded name n))
  ended : ∀ steps, w.ending = .returned steps → steps.length ≤ 4 + 2 * maxRevisions ∧ w.calls.length = steps.length ∧
    w.state.replies.length ≤ 2 + 2 * maxRevisions ∧ w.state.research.revisions ≤ maxRevisions
  reports : ∀ r, result = .ok r → Reported cost w r
  answer : ∀ r, result = .ok r →
    (∀ steps, w.ending = .returned steps → w.state.research.passages = [] ∧ r.answer = NO_CONTEXT_ANSWER ∨
      w.state.research.passages ≠ [] ∧ lastAnswer w.state.replies = some r.answer) ∧
    (∀ name n, w.ending = .raised .run (.stepBudgetExceeded name n) → r.answer = (lastAnswer w.state.replies).getD "")
  raises : ∀ e, result = .error e →
    w.ending = .raised .node e ∨ ∃ failure, citedNumbers w.state.research.draft = .error failure

section Whole
variable {principal : Principal} {request : ResearchRequest} {world : W}

theorem session_runs : RunsAt request.maxRevisions 0 "plan" (ResearchAgent.session principal request world) := by
  refine ⟨.plan, rfl, rfl, ?_, .plan rfl rfl rfl⟩
  exact { llmCalls := rfl, promptTokens := rfl, completionTokens := rfl, costUsd := rfl }

/-- How the run of an agent ends. -/
theorem walk_finishes : Graph.Finishes (RunsAt request.maxRevisions) (fun name e _ => FailsAt name e) 0 maxSteps
    (ResearchAgent.walk services maxSteps principal request world) :=
  Graph.loop_keeps graph_keeps (.inr (Graph.entry_defined _)) session_runs

theorem name_ne_end {place : Place} (h : place.name ≠ END) : place ≠ .done := fun heq => h (heq ▸ rfl)

/-- Short of its end, a run has made fewer steps than it may at all, and its draft is the last answer. -/
theorem Stands.unfinished {place : Place} (h : Stands m n place s) (hne : place ≠ .done) :
    n < 4 + 2 * m ∧ s.research.draft = (lastAnswer s.replies).getD "" := by
  cases h with
  | plan revisions replies draft => exact ⟨by omega, by rw [replies, draft]; rfl⟩
  | retrieve revisions replies unanswered draft => exact ⟨by omega, by rw [unanswered, draft]; rfl⟩
  | draft revisions replies unanswered draft passages => exact ⟨by omega, by rw [unanswered, draft]; rfl⟩
  | critique steps revisions replies answered passages => exact ⟨by omega, by rw [answered]; rfl⟩
  | revise steps revisions replies answered passages => exact ⟨by omega, by rw [answered]; rfl⟩
  | done => exact absurd rfl hne

theorem Stands.finished (h : Stands m n .done s) : n ≤ 4 + 2 * m ∧ s.research.revisions ≤ m ∧ s.replies.length ≤ 2 + 2 * m ∧
    (s.research.passages = [] ∧ s.research.draft = NO_CONTEXT_ANSWER ∨
      s.research.passages ≠ [] ∧ lastAnswer s.replies = some s.research.draft) := by
  cases h with
  | done steps revisions replies answer => exact ⟨steps, revisions, replies, answer⟩

/-- A response is made of the state and the steps, unless the citations of the answer cannot be read. -/
theorem response_cases (state : ResearchState) (steps : List Step) :
    (∃ failure, response state steps = .error failure ∧ citedNumbers state.draft = .error failure) ∨
      ∃ r, response state steps = .ok r ∧ r.answer = state.draft ∧ r.steps = steps ∧ r.revisions = state.revisions ∧
        r.llmCalls = state.llmCalls ∧ r.costUsd = round8 state.costUsd ∧
        r.usage = if state.llmCalls = 0 then none else some ⟨state.promptTokens, state.completionTokens⟩ := by
  rw [response]
  cases citedNumbers state.draft with
  | error failure => exact .inl ⟨failure, rfl, rfl⟩
  | ok cited => exact .inr ⟨_, rfl, rfl, rfl, rfl, rfl, rfl, rfl⟩

/-- The response of a run that is reported. -/
theorem report_cases {w : Walked (Session W) Failure} (B : Billed w.state)
    (hreport : ResearchAgent.report w = (response w.state.research w.reported).mapError .other) :
    (∀ r, ResearchAgent.report w = .ok r → Reported round8 w r ∧ r.answer = w.state.research.draft) ∧
      ∀ e, ResearchAgent.report w = .error e → ∃ failure, citedNumbers w.state.research.draft = .error failure := by
  rw [hreport]
  rcases response_cases w.state.research w.reported with
    ⟨failure, hresponse, hcited⟩ | ⟨r, hresponse, hanswer, hsteps, hrevisions, hcalls, hcost, husage⟩
  · rw [hresponse]
    exact ⟨nofun, fun _ _ => ⟨failure, hcited⟩⟩
  · rw [hresponse]
    refine ⟨fun r' heq => ?_, nofun⟩
    cases heq
    refine ⟨{ llmCalls := ?_, usage := ?_, costUsd := ?_, steps := hsteps, revisions := hrevisions }, hanswer⟩
    · rw [hcalls, B.llmCalls]
    · rw [husage, B.llmCalls, B.promptTokens, B.completionTokens]
      simp only [List.length_eq_zero_iff]
    · rw [hcost, B.costUsd]

theorem done_of_name {place : Place} (h : place.name = END) : place = .done := by
  cases place with
  | done => rfl
  | plan | retrieve | draft | critique | revise => exact absurd h (by decide)

end Whole

end Invariant

/-- An agent run is bounded and its bill is exact, up to the rounding of its cost. -/
theorem research_bounded {W : Type} (services : Services W) (maxSteps : Nat) (principal : Principal) (request : ResearchRequest)
    (world : W) : BoundedRun round8 maxSteps request.maxRevisions
      (ResearchAgent.walk services maxSteps principal request world)
      (ResearchAgent.research services maxSteps principal request world) := by
  have hreturned : ∀ steps, (ResearchAgent.walk services maxSteps principal request world).ending = .returned steps →
      steps = (ResearchAgent.walk services maxSteps principal request world).reported := fun steps hending =>
    ((Graph.run_bounded_walk (ResearchAgent.graph services maxSteps) _ _).1.returned steps hending).1
  rw [ResearchAgent.research]
  have hfinishes : Graph.Finishes (RunsAt request.maxRevisions) (fun name e _ => FailsAt name e) 0 maxSteps
    (ResearchAgent.walk services maxSteps principal request world) := walk_finishes
  generalize ResearchAgent.walk services maxSteps principal request world = w at hreturned hfinishes ⊢
  cases hfinishes with
  | ended steps ending calls inv =>
    obtain ⟨place, hname, hruns⟩ := inv
    obtain rfl := done_of_name hname
    have hreport : ResearchAgent.report w = (response w.state.research w.reported).mapError .other := by
      rw [ResearchAgent.report, ending]
    obtain ⟨hok, herror⟩ := report_cases hruns.billed hreport
    obtain ⟨hsteps, hrevisions, hreplies, hanswer⟩ := hruns.stands.finished
    constructor
    case finishes => exact .inl ⟨steps, ending⟩
    case ended =>
      intro steps' ending'
      rw [hreturned steps' ending', ← Nat.zero_add w.reported.length]
      exact ⟨hsteps, (Nat.zero_add _).symm ▸ calls, hreplies, hrevisions⟩
    case reports => exact fun r hr => (hok r hr).1
    case answer =>
      intro r hr
      rw [(hok r hr).2]
      exact ⟨fun _ _ => hanswer, fun _ _ h => (by cases ending.symm.trans h)⟩
    case raises => exact fun e he => .inr (herror e he)
  | exhausted name n ending calls all current unfinished inv =>
    obtain ⟨place, rfl, hruns⟩ := inv
    have hreport : ResearchAgent.report w = (response w.state.research w.reported).mapError .other := by
      rw [ResearchAgent.report, ending]
    obtain ⟨hok, herror⟩ := report_cases hruns.billed hreport
    obtain ⟨hfew, hdraft⟩ := hruns.stands.unfinished (name_ne_end unfinished)
    constructor
    case finishes => exact .inr (.inr ⟨by omega, by omega, name, n, ending⟩)
    case ended => exact fun _ h => by cases ending.symm.trans h
    case reports => exact fun r hr => (hok r hr).1
    case answer =>
      intro r hr
      rw [(hok r hr).2]
      exact ⟨fun _ h => (by cases ending.symm.trans h), fun _ _ _ => hdraft⟩
    case raises => exact fun e he => .inr (herror e he)
  | failed name e ending last holds =>
    have hreport : ResearchAgent.report w = .error e := by
      obtain ⟨failure, rfl, -⟩ := holds
      rw [ResearchAgent.report, ending]
    constructor
    case finishes => exact .inr (.inl ⟨name, e, ending, last, holds, hreport⟩)
    case ended => exact fun _ h => by cases ending.symm.trans h
    case reports => exact fun r hr => by cases hreport.symm.trans hr
    case answer => exact fun r hr => by cases hreport.symm.trans hr
    case raises =>
      intro e' he'
      cases hreport.symm.trans he'
      exact .inl ending

/-- Completions that cost less than half of the last decimal. -/
def cheap : Services Unit where
  complete _ _ _ := (.ok
    { model := "m", content := "postmortem", finishReason := "stop", usage := ⟨1, 1⟩
      nexusgate := { deployment := some "d", cached := false, costUsd := 4 / 10 ^ 9, latencyMs := 0 } }, ())
  search _ _ _ _ _ := (.ok [], ())

theorem not_research_bounded : ¬∀ (services : Services Unit) (maxSteps : Nat) (principal : Principal) (request : ResearchRequest)
    (world : Unit), BoundedRun id maxSteps request.maxRevisions
      (ResearchAgent.walk services maxSteps principal request world)
      (ResearchAgent.research services maxSteps principal request world) := by
  intro h
  have hcost := ((h cheap 1 { tenantId := "acme", keyId := "k" } { question := "When?" } ()).reports _ rfl).costUsd
  exact absurd hcost (by decide +kernel)

end NexusGate.Agents
