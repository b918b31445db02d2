import NexusGate.Agents.Service

/-! # The problems of a review

A review is read twice: as a whole, for whether it approves, and line by line, for its problems. Where it approves by how it
begins, its problem lines are not looked at. -/

namespace NexusGate.Agents
open Text

/-- A line in the format of the prompt, with something behind its dash. -/
def ProblemLine (line : List Char) : Prop := ['-', ' '] <+: line ∧ stripChars [' ', '-', '*'] line ≠ []

instance (line : List Char) : Decidable (ProblemLine line) := inferInstanceAs (Decidable (_ ∧ _))

/-- No problem line of the verdict is waved through. -/
structure Heeded (verdict cut : String) (next : Next) (issues : List String) : Prop where
  revised : ∀ line ∈ splitlines verdict, ProblemLine line →
    next.node = "revise" ∧ .ofList (stripChars [' ', '-', '*'] line) ∈ issues
  approved : next = { node := END, note := some s!"approved{cut}" } → ∀ line ∈ splitlines verdict, ¬ProblemLine line

section Review
variable {W : Type} {services : Services W} {s t : Session W} {verdict cut : String}

theorem mem_issuesOf {line : List Char} (hline : line ∈ splitlines verdict) (h : ProblemLine line) :
    .ofList (stripChars [' ', '-', '*'] line) ∈ issuesOf verdict := by
  refine List.mem_map_of_mem (List.mem_filter.mpr ⟨List.mem_map_of_mem hline, ?_⟩)
  rw [Bool.not_eq_true', List.isEmpty_eq_false_iff]
  exact h.2

/-- The three ways in which a review ends. -/
theorem review_cases :
    (approves verdict = true ∧ ∃ t', AgentNodes.review verdict cut t = (.ok { node := END, note := some s!"approved{cut}" }, t')) ∨
    (approves verdict = false ∧ issuesOf verdict = [] ∧
      ∃ t', AgentNodes.review verdict cut t = (.ok { node := END, note := some s!"no usable review{cut}" }, t')) ∨
    (approves verdict = false ∧ ∃ note t', AgentNodes.review verdict cut t = (.ok { node := "revise", note }, t') ∧
      t'.research.issues = issuesOf verdict) := by
  rw [AgentNodes.review, Act.modify_bind]
  cases happroves : approves verdict with
  | true => exact .inl ⟨rfl, _, rfl⟩
  | false =>
    let read : ResearchState := { t.research with critique := some verdict, issues := issuesOf verdict }
    by_cases hissues : issuesOf verdict = []
    · refine .inr (.inl ⟨rfl, hissues, { t with research := read }, ?_⟩)
      rw [if_neg Bool.false_ne_true, if_pos hissues]
      rfl
    · refine .inr (.inr ⟨rfl, some s!"{(issuesOf verdict).length} issue(s){cut}", { t with research := read }, ?_, rfl⟩)
      rw [if_neg Bool.false_ne_true, if_neg hissues]
      rfl

/-- What `critique` makes of a verdict, while it may still ask for a revision. -/
theorem critique_ok (hleft : s.research.revisions < s.research.maxRevisions)
    (h : AgentNodes.ask services .critique (Prompts.critiqueSystem (formatContext s.research.passages))
      (Prompts.critiqueUser s.research.question s.research.draft) s = (.ok (verdict, cut), t)) :
    AgentNodes.critique services s = AgentNodes.review verdict cut t := by
  have hsome : (some <$> AgentNodes.ask services .critique (Prompts.critiqueSystem (formatContext s.research.passages))
      (Prompts.critiqueUser s.research.question s.research.draft)) s = (.ok (some (verdict, cut)), t) := Act.bind_ok h
  have htry : ((some <$> AgentNodes.ask services .critique (Prompts.critiqueSystem (formatContext s.research.passages))
      (Prompts.critiqueUser s.research.question s.research.draft)).orElse (pure none)) s = (.ok (some (verdict, cut)), t) := by
    rw [Act.orElse, hsome]
  rw [AgentNodes.critique, Act.state_bind, if_neg (Nat.not_le.mpr hleft)]
  exact Act.bind_ok htry

end Review

/-- The problems of a verdict are heeded, unless it is also one that approves. -/
theorem critique_heeds_iff {W : Type} (services : Services W) (s : Session W) {verdict cut : String} {t : Session W}
    (hleft : s.research.revisions < s.research.maxRevisions)
    (hreply : AgentNodes.ask services .critique (Prompts.critiqueSystem (formatContext s.research.passages))
      (Prompts.critiqueUser s.research.question s.research.draft) s = (.ok (verdict, cut), t)) :
    (∃ next, (AgentNodes.critique services s).1 = .ok next ∧
      Heeded verdict cut next (AgentNodes.critique services s).2.research.issues) ↔
      (approves verdict = false ∨ ∀ line ∈ splitlines verdict, ¬ProblemLine line) := by
  rw [critique_ok hleft hreply]
  rcases @review_cases W t verdict cut with ⟨happroves, t', heq⟩ | ⟨happroves, hissues, t', heq⟩ | ⟨happroves, note, t', heq, hissues⟩
  · rw [heq, happroves]
    constructor
    · rintro ⟨next, hnext, heeded⟩
      cases hnext
      exact .inr (heeded.approved rfl)
    · intro h
      have hnone := h.resolve_left Bool.noConfusion
      exact ⟨_, rfl, { revised := fun line hline hp => absurd hp (hnone line hline), approved := fun _ => hnone }⟩
  · have hnone : ∀ line ∈ splitlines verdict, ¬ProblemLine line := by
      intro line hline hp
      have := mem_issuesOf hline hp
      rw [hissues] at this
      cases this
    rw [heq]
    refine ⟨fun _ => .inl happroves, fun _ => ⟨_, rfl, ?_⟩⟩
    exact { revised := fun line hline hp => absurd hp (hnone line hline), approved := fun _ => hnone }
  · rw [heq]
    refine ⟨fun _ => .inl happroves, fun _ => ⟨_, rfl, ?_⟩⟩
    exact {
      revised := fun line hline hp => ⟨rfl, hissues ▸ mem_issuesOf hline hp⟩
      approved := fun h => absurd (congrArg Next.node h) (by decide : "revise" ≠ END) }

/-- A model that reviews with this text, at no cost. -/
def reviewing (content : String) : Services Unit where
  complete _ _ _ := (.ok
    { model := "m", content, finishReason := "stop", usage := {}
      nexusgate := { deployment := none, cached := true, costUsd := 0, latencyMs := 0 } }, ())
  search _ _ _ _ _ := (.ok [], ())

/-- A run that has drafted its answer. -/
def drafted : Session Unit where
  research :=
    { question := "When?", principal := { tenantId := "acme", keyId := "k" }, model := "default", topK := 5, maxSearches := 3
      maxRevisions := 1, cache := true, draft := "In three days [1]." }
  world := ()

theorem critique_heeds_claim : ∃ next, (AgentNodes.critique (reviewing "- the SLA is unanswered") drafted).1 = .ok next ∧
    Heeded "- the SLA is unanswered" "" next (AgentNodes.critique (reviewing "- the SLA is unanswered") drafted).2.research.issues :=
  (critique_heeds_iff (reviewing "- the SLA is unanswered") drafted (by decide) rfl).mpr (.inl (by decide))

theorem not_critique_heeds : ¬∀ (services : Services Unit) (s : Session Unit) (verdict cut : String) (t : Session Unit),
    s.research.revisions < s.research.maxRevisions →
    AgentNodes.ask services .critique (Prompts.critiqueSystem (formatContext s.research.passages))
      (Prompts.critiqueUser s.research.question s.research.draft) s = (.ok (verdict, cut), t) →
      ∃ next, (AgentNodes.critique services s).1 = .ok next ∧
        Heeded verdict cut next (AgentNodes.critique services s).2.research.issues := by
  intro h
  obtain ⟨next, hnext, heeded⟩ :=
    h (reviewing "OK, but:\n- claim [2] is unsupported") drafted "OK, but:\n- claim [2] is unsupported" "" _ (by decide) rfl
  cases hnext
  exact absurd (heeded.revised "- claim [2] is unsupported".toList (by decide) (by decide)).1 (by decide)

end NexusGate.Agents
