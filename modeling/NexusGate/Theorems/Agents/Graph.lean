import NexusGate.Agents.Graph

/-! # A run is a bounded walk

Every pass of the loop executes one node, which is defined, and either ends the run or makes a step along a declared edge:
so the node of the next pass is defined as well, or the run is at its end. -/

namespace NexusGate.Agents

/-! ### What the constructor accepts -/

section Accepted
variable {σ ε : Type} {g : Definition σ ε} {name : String} {targets : List String} {edges : List (String × List String)}

theorem mem_keys {α : Type} {mapping : List (String × α)} : name ∈ keys mapping ↔ ∃ a, mapping.lookup name = some a := by
  rw [← Option.isSome_iff_exists, List.lookup_isSome_iff, keys, List.mem_map]
  simp only [beq_iff_eq]
  exact exists_congr fun _ => and_congr_right fun _ => eq_comm

theorem mem_of_lookup {α : Type} {mapping : List (String × α)} {a : α} (h : mapping.lookup name = some a) :
    (name, a) ∈ mapping := by
  obtain ⟨before, after, rfl, -⟩ := List.lookup_eq_some_iff.mp h
  exact List.mem_append_right _ List.mem_cons_self

theorem checkTargets_ok (h : g.checkTargets edges = .ok ()) (hmem : (name, targets) ∈ edges) :
    ∀ t ∈ targets, t = END ∨ t ∈ keys g.nodes := by
  induction edges with
  | nil => cases hmem
  | cons edge edges ih =>
    obtain ⟨node, ts⟩ := edge
    rw [Definition.checkTargets] at h
    split at h
    · cases h
    rename_i hknown
    split at h
    · cases h
    rcases List.mem_cons.mp hmem with heq | hmem
    · cases heq
      intro t ht
      by_contra hnot
      obtain ⟨hend, hundefined⟩ := not_or.mp hnot
      refine List.ne_nil_of_mem (List.mem_filter.mpr ⟨ht, ?_⟩) (not_not.mp hknown)
      simp [hend, hundefined]
    · exact ih h hmem

theorem Graph.entry_defined (g : Graph σ ε) : g.entry ∈ keys g.nodes := by
  have h := g.accepted
  rw [Definition.postInit] at h
  split at h
  · cases h
  · rename_i hentry
    exact not_not.mp hentry

theorem Graph.edges_declared (g : Graph σ ε) (h : name ∈ keys g.nodes) : name ∈ keys g.edges := by
  have hok := g.accepted
  rw [Definition.postInit] at hok
  split at hok
  · cases hok
  split at hok
  · cases hok
  rename_i hmissing
  by_contra hnot
  refine List.ne_nil_of_mem (List.mem_append_left _ (List.mem_filter.mpr ⟨h, ?_⟩)) (not_not.mp hmissing)
  simpa using hnot

theorem Graph.targets_defined (g : Graph σ ε) (h : g.edges.lookup name = some targets) :
    ∀ t ∈ targets, t = END ∨ t ∈ keys g.nodes := by
  have hok := g.accepted
  rw [Definition.postInit] at hok
  split at hok
  · cases hok
  split at hok
  · cases hok
  exact checkTargets_ok hok (mem_of_lookup h)

end Accepted

namespace Graph
variable {σ ε : Type} {g : Graph σ ε} {onStep : Step → σ → Except (Exn ε) Unit × σ} {s : σ} {current : String}

/-- The targets that the edges list for a node. -/
def targets (g : Graph σ ε) (name : String) : List String := (g.edges.lookup name).getD []

/-- The node was called and named a target that its edges do not list. -/
def Strays (g : Graph σ ε) (call : String × Except (Exn ε) Next) : Prop :=
  ∃ decision, call.2 = .ok decision ∧ decision.node ∉ g.targets call.1

/-- The error that a decision outside the edges is answered with. -/
def strayError (g : Graph σ ε) (name : String) (decision : Next) : Exn ε :=
  .graphError (.undeclaredMove name decision.node (g.targets name))

/-- Steps that follow one another along declared edges, from a node to a node or `END`. -/
inductive Path (g : Graph σ ε) : String → List Step → String → Prop
  | nil {name : String} : Path g name [] name
  | cons {step : Step} {steps : List Step} {last : String} (declared : step.next ∈ g.targets step.node)
      (rest : Path g step.next steps last) : Path g step.node (step :: steps) last

/-! ### One pass -/

/-- What a pass at a defined node does: its node raises, or names a target outside its edges, or `on_step` raises, or a step is
    made. -/
inductive Turn (g : Graph σ ε) (current : String) : Pass σ ε → Prop
  | raised (e : Exn ε) (s : σ) : Turn g current
      { result := .error (.node, e), state := s, calls := [(current, .error e)] }
  | strayed (decision : Next) (s : σ) (h : decision.node ∉ g.targets current) : Turn g current
      { result := .error (.run, g.strayError current decision), state := s, calls := [(current, .ok decision)] }
  | refused (decision : Next) (e : Exn ε) (s : σ) (h : decision.node ∈ g.targets current) : Turn g current
      { result := .error (.onStep, e), state := s, calls := [(current, .ok decision)]
        reported := [{ node := current, next := decision.node, note := decision.note }] }
  | moved (decision : Next) (s : σ) (h : decision.node ∈ g.targets current) : Turn g current
      { result := .ok { node := current, next := decision.node, note := decision.note }, state := s
        calls := [(current, .ok decision)], reported := [{ node := current, next := decision.node, note := decision.note }] }

theorem pass_turn (h : current ∈ keys g.nodes) : Turn g current (g.pass onStep current s) := by
  obtain ⟨node, hnode⟩ := mem_keys.mp h
  obtain ⟨targets, htargets⟩ := mem_keys.mp (g.edges_declared h)
  have heq : g.targets current = targets := by rw [Graph.targets, htargets, Option.getD_some]
  rw [pass, hnode]
  dsimp only
  split
  · exact .raised _ _
  · rename_i decision s _
    rw [htargets]
    dsimp only
    split
    · rename_i hnot
      have hturn : Turn g current _ := .strayed decision s (heq ▸ hnot)
      rwa [strayError, heq] at hturn
    · rename_i hmem
      split
      · exact .refused _ _ _ (heq ▸ not_not.mp hmem)
      · exact .moved _ _ (heq ▸ not_not.mp hmem)

/-- A step leads to a node that is defined, or to the end. -/
theorem next_defined {step : String} (h : step ∈ g.targets current) : step = END ∨ step ∈ keys g.nodes := by
  rw [Graph.targets] at h
  cases hlookup : g.edges.lookup current with
  | none => rw [hlookup] at h; cases h
  | some targets => rw [hlookup] at h; exact g.targets_defined hlookup step h

/-! ### The loop -/

/-- What the rest of a run is that has a budget left, after the steps made so far. -/
structure WalksFrom (g : Graph σ ε) (left : Nat) (steps : List Step) (current : String) (w : Walked σ ε) : Prop where
  bounded : w.calls.length ≤ left
  defined : ∀ name ∈ w.looked, name ∈ keys g.nodes ∧ name ∈ keys g.edges
  chained : ∃ last, g.Path current w.reported last ∧
    ∀ returned, w.ending = .returned returned → returned = steps ++ w.reported ∧ last = END
  exhausted : ∀ name maxSteps, w.ending = .raised .run (.stepBudgetExceeded name maxSteps) → w.reported.length = left
  strayed : ∀ e, w.ending = .raised .run (.graphError e) → ∃ call ∈ w.calls, g.Strays call
  final : ∀ before call after, w.calls = before ++ call :: after → ∀ decision, call.2 = .ok decision →
    decision.node ∉ g.targets call.1 →
      w.ending = .raised .run (g.strayError call.1 decision) ∧ after = [] ∧ w.reported.length = before.length
  own : ∀ e, w.ending = .raised .run e → (∃ name maxSteps, e = .stepBudgetExceeded name maxSteps) ∨ ∃ e', e = .graphError e'
  passed : ∀ e, w.ending = .raised .node e → ∃ name, w.calls.getLast? = some (name, .error e)

section Loop
variable {left : Nat} {steps : List Step} {w : Walked σ ε}

/-- Nothing more is done at the end, or without a budget. -/
theorem WalksFrom.still {ending : Ending ε} (hreturned : ∀ returned, ending = .returned returned → returned = steps ∧ current = END)
    (hraised : ∀ origin e, ending = .raised origin e →
      origin = .run ∧ e = .stepBudgetExceeded g.name g.maxSteps ∧ left = 0) :
    WalksFrom g left steps current { ending, state := s } where
  bounded := Nat.zero_le _
  defined _ h := (nomatch h)
  chained := by
    refine ⟨current, .nil, fun returned heq => ?_⟩
    obtain ⟨rfl, hcur⟩ := hreturned returned heq
    exact ⟨(List.append_nil _).symm, hcur⟩
  exhausted name maxSteps heq := (hraised _ _ heq).2.2.symm
  strayed e heq := by cases (hraised _ _ heq).2.1
  final before call after heq := by cases before <;> cases heq
  own e heq := .inl ⟨_, _, (hraised _ _ heq).2.1⟩
  passed e heq := by cases (hraised _ _ heq).1

/-- The only call of a list that begins with one. -/
theorem single_call {α : Type} {a b : α} {before after : List α} (h : [a] = before ++ b :: after) :
    b = a ∧ before = [] ∧ after = [] := by
  cases before with
  | nil => cases h; exact ⟨rfl, rfl, rfl⟩
  | cons c before => exact absurd (List.cons.inj h).2 (by simp)

/-- The rest of a run whose next pass ends it. -/
theorem WalksFrom.stopped (hcur : current ∈ keys g.nodes) {p : Pass σ ε} (hp : Turn g current p) {origin : Origin} {e : Exn ε}
    (hresult : p.result = .error (origin, e)) : WalksFrom g (left + 1) steps current
      { ending := .raised origin e, state := p.state, looked := [current], calls := p.calls, reported := p.reported } where
  bounded := by cases hp <;> exact Nat.succ_le_succ (Nat.zero_le _)
  defined name h := by
    rw [List.mem_singleton.mp h]
    exact ⟨hcur, g.edges_declared hcur⟩
  chained := by
    cases hp with
    | raised | strayed => exact ⟨current, .nil, nofun⟩
    | refused decision e s h => exact ⟨decision.node, @Path.cons _ _ g ⟨current, decision.node, decision.note⟩ [] _ h .nil, nofun⟩
    | moved => cases hresult
  exhausted name maxSteps heq := by cases hp <;> cases hresult <;> cases heq
  strayed e' heq := by
    cases hp with
    | moved => cases hresult
    | raised | refused => cases hresult; cases heq
    | strayed decision s h => exact ⟨_, List.mem_singleton_self _, decision, rfl, h⟩
  final before call after heq decision hcall hnot := by
    cases hp with
    | raised e s =>
      obtain ⟨rfl, -⟩ := single_call heq
      cases hcall
    | strayed decision' s h =>
      obtain ⟨rfl, rfl, rfl⟩ := single_call heq
      cases hcall
      cases hresult
      exact ⟨rfl, rfl, rfl⟩
    | refused decision' e s h | moved decision' s h =>
      obtain ⟨rfl, -⟩ := single_call heq
      cases hcall
      exact absurd h hnot
  own e' heq := by
    cases hp with
    | moved => cases hresult
    | raised | refused => cases hresult; cases heq
    | strayed => cases hresult; cases heq; exact .inr ⟨_, rfl⟩
  passed e' heq := by
    cases hp with
    | raised => cases hresult; cases heq; exact ⟨current, rfl⟩
    | moved => cases hresult
    | strayed | refused => cases hresult; cases heq

/-- The rest of a run whose next pass makes a step. -/
theorem WalksFrom.step (hcur : current ∈ keys g.nodes) {p : Pass σ ε} (hp : Turn g current p) {step : Step}
    (hresult : p.result = .ok step) (h : WalksFrom g left (steps ++ [step]) step.next w) :
    WalksFrom g (left + 1) steps current
      { w with looked := current :: w.looked, calls := p.calls ++ w.calls, reported := p.reported ++ w.reported } := by
  cases hp with
  | raised | strayed | refused => cases hresult
  | moved decision s' hmem =>
    cases hresult
    exact {
      bounded := Nat.succ_le_succ h.bounded
      defined := List.forall_mem_cons.mpr ⟨⟨hcur, g.edges_declared hcur⟩, h.defined⟩
      chained := by
        obtain ⟨last, hpath, hend⟩ := h.chained
        refine ⟨last, @Path.cons _ _ g ⟨current, decision.node, decision.note⟩ _ _ hmem hpath, fun returned heq => ?_⟩
        obtain ⟨rfl, hlast⟩ := hend returned heq
        exact ⟨List.append_assoc _ _ _, hlast⟩
      exhausted := fun name maxSteps heq => congrArg Nat.succ (h.exhausted name maxSteps heq)
      strayed := fun e heq =>
        let ⟨call, hmem, hstrays⟩ := h.strayed e heq
        ⟨call, List.mem_cons_of_mem _ hmem, hstrays⟩
      final := by
        intro before call after heq decision' hcall hnot
        cases before with
        | nil =>
          cases heq
          cases hcall
          exact absurd hmem hnot
        | cons b before =>
          obtain ⟨hend, hafter, hlen⟩ := h.final before call after (List.cons.inj heq).2 decision' hcall hnot
          exact ⟨hend, hafter, congrArg Nat.succ hlen⟩
      own := h.own
      passed := fun e heq => by
        obtain ⟨name, hlast⟩ := h.passed e heq
        refine ⟨name, ?_⟩
        show ((current, Except.ok decision) :: w.calls).getLast? = _
        rw [List.getLast?_cons, hlast, Option.getD_some] }

theorem loop_walks (hcur : current = END ∨ current ∈ keys g.nodes) :
    WalksFrom g left steps current (g.loop onStep left steps current s) := by
  induction left generalizing steps current s with
  | zero =>
    rw [loop]
    split
    · rename_i hend
      exact .still (fun _ heq => by cases heq; exact ⟨rfl, hend⟩) nofun
    · exact .still nofun fun _ _ heq => by cases heq; exact ⟨rfl, rfl, rfl⟩
  | succ left ih =>
    rw [loop]
    split
    · rename_i hend
      exact .still (fun _ heq => by cases heq; exact ⟨rfl, hend⟩) nofun
    · rename_i hend
      have hdefined := hcur.resolve_left hend
      have hturn : Turn g current (g.pass onStep current s) := pass_turn hdefined
      dsimp only
      generalize g.pass onStep current s = p at hturn ⊢
      split
      · rename_i hresult
        exact .stopped hdefined hturn hresult
      · rename_i step hresult
        refine .step hdefined hturn hresult (ih ?_)
        cases hturn with
        | raised | strayed | refused => cases hresult
        | moved decision s hmem => cases hresult; exact next_defined hmem

end Loop

/-! ### Invariants -/

section Invariant
variable {I : Nat → String → σ → Prop} {R : String → Exn ε → σ → Prop} {node : Node σ ε} {s' : σ} {n left : Nat} {steps : List Step}

/-- An `on_step` that does nothing. -/
def quiet (_ : Step) (s : σ) : Except (Exn ε) Unit × σ := (.ok (), s)

/-- Every decision keeps `I`, which also knows how many steps were made, and moves along an edge; what is raised satisfies
    `R`. -/
structure Keeps (g : Graph σ ε) (I : Nat → String → σ → Prop) (R : String → Exn ε → σ → Prop) : Prop where
  decided : ∀ {n : Nat} {current : String} {node : Node σ ε} {s s' : σ} {decision : Next}, g.nodes.lookup current = some node →
    I n current s → node s = (.ok decision, s') → decision.node ∈ g.targets current ∧ I (n + 1) decision.node s'
  raised : ∀ {n : Nat} {current : String} {node : Node σ ε} {s s' : σ} {e : Exn ε}, g.nodes.lookup current = some node →
    I n current s → node s = (.error e, s') → R current e s'

/-- How a run ends that keeps `I`, after `n` steps. -/
inductive Finishes (I : Nat → String → σ → Prop) (R : String → Exn ε → σ → Prop) (n left : Nat) (w : Walked σ ε) : Prop
  | ended (returned : List Step) (ending : w.ending = .returned returned) (calls : w.calls.length = w.reported.length)
      (inv : I (n + w.reported.length) END w.state)
  | exhausted (name : String) (maxSteps : Nat) (ending : w.ending = .raised .run (.stepBudgetExceeded name maxSteps))
      (calls : w.calls.length = w.reported.length) (all : w.reported.length = left) (current : String) (unfinished : current ≠ END)
      (inv : I (n + w.reported.length) current w.state)
  | failed (name : String) (e : Exn ε) (ending : w.ending = .raised .node e) (last : w.calls.getLast? = some (name, .error e))
      (holds : R name e w.state)

theorem pass_error {e : Exn ε} (hnode : g.nodes.lookup current = some node) (h : node s = (.error e, s')) :
    g.pass onStep current s = { result := .error (.node, e), state := s', calls := [(current, .error e)] } := by
  rw [pass, hnode]
  dsimp only
  rw [h]

theorem pass_ok {decision : Next} (hnode : g.nodes.lookup current = some node) (h : node s = (.ok decision, s'))
    (hmem : decision.node ∈ g.targets current) : g.pass quiet current s =
      { result := .ok { node := current, next := decision.node, note := decision.note }, state := s'
        calls := [(current, .ok decision)], reported := [{ node := current, next := decision.node, note := decision.note }] } := by
  rw [pass, hnode]
  dsimp only
  rw [h]
  dsimp only
  rw [Graph.targets] at hmem
  cases hlookup : g.edges.lookup current with
  | none => rw [hlookup] at hmem; cases hmem
  | some targets =>
    rw [hlookup, Option.getD_some] at hmem
    dsimp only
    rw [if_neg (not_not.mpr hmem)]
    rfl

theorem loop_keeps (K : g.Keeps I R) (hcur : current = END ∨ current ∈ keys g.nodes) (h : I n current s) :
    Finishes I R n left (g.loop quiet left steps current s) := by
  induction left generalizing n steps current s with
  | zero =>
    rw [loop]
    split
    · rename_i hend
      exact .ended _ rfl rfl (hend ▸ h)
    · rename_i hend
      exact .exhausted _ _ rfl rfl rfl current hend h
  | succ left ih =>
    rw [loop]
    split
    · rename_i hend
      exact .ended _ rfl rfl (hend ▸ h)
    rename_i hend
    obtain ⟨node, hnode⟩ := mem_keys.mp (hcur.resolve_left hend)
    dsimp only
    cases hout : node s with
    | mk outcome s' =>
      cases outcome with
      | error e =>
        rw [pass_error hnode hout]
        exact .failed current e rfl rfl (K.raised hnode h hout)
      | ok decision =>
        obtain ⟨hmem, hnext⟩ := K.decided hnode h hout
        rw [pass_ok hnode hout hmem]
        have hshift : ∀ k, n + 1 + k = n + (k + 1) := fun k => by omega
        have hrest : Finishes I R (n + 1) left (g.loop quiet left
            (steps ++ [{ node := current, next := decision.node, note := decision.note }]) decision.node s') :=
          ih (next_defined hmem) hnext
        dsimp only
        generalize g.loop quiet left _ decision.node s' = w at hrest ⊢
        cases hrest with
        | ended returned hending hcalls hinv =>
          exact .ended returned hending (congrArg Nat.succ hcalls) (hshift _ ▸ hinv)
        | exhausted name maxSteps hending hcalls hall cur hne hinv =>
          exact .exhausted name maxSteps hending (congrArg Nat.succ hcalls) (congrArg Nat.succ hall) cur hne (hshift _ ▸ hinv)
        | failed name e hending hlast holds =>
          refine .failed name e hending ?_ holds
          show ((current, Except.ok decision) :: w.calls).getLast? = _
          rw [List.getLast?_cons, hlast, Option.getD_some]

end Invariant

/-! ### A whole run -/

/-- A run is a bounded walk along declared edges, as far as the exceptions go that come from these origins. -/
structure BoundedWalk (g : Graph σ ε) (counts : Origin → Prop) (w : Walked σ ε) : Prop where
  bounded : w.calls.length ≤ g.maxSteps
  defined : ∀ name ∈ w.looked, name ∈ keys g.nodes ∧ name ∈ keys g.edges
  returned : ∀ steps, w.ending = .returned steps → steps = w.reported ∧ g.Path g.entry steps END
  exhausted : ∀ origin, counts origin → ∀ name maxSteps, w.ending = .raised origin (.stepBudgetExceeded name maxSteps) →
    w.reported.length = g.maxSteps ∧ ∃ last, g.Path g.entry w.reported last
  strayed : (∃ origin e, counts origin ∧ w.ending = .raised origin (.graphError e)) ↔ ∃ call ∈ w.calls, g.Strays call
  final : ∀ before call after, w.calls = before ++ call :: after → g.Strays call →
    after = [] ∧ w.reported.length = before.length

/-- The exceptions of `run` itself are those two, and one of a node ends the run as it is. -/
structure PassesOn (w : Walked σ ε) : Prop where
  own : ∀ e, w.ending = .raised .run e → (∃ name maxSteps, e = .stepBudgetExceeded name maxSteps) ∨ ∃ e', e = .graphError e'
  passed : ∀ e, w.ending = .raised .node e → ∃ name, w.calls.getLast? = some (name, .error e)

theorem run_walks : g.WalksFrom g.maxSteps [] g.entry (g.run onStep s) := loop_walks (.inr g.entry_defined)

theorem run_bounded_walk (g : Graph σ ε) (onStep : Step → σ → Except (Exn ε) Unit × σ) (s : σ) :
    g.BoundedWalk (· = .run) (g.run onStep s) ∧ PassesOn (g.run onStep s) := by
  have h : g.WalksFrom g.maxSteps [] g.entry (g.run onStep s) := run_walks
  obtain ⟨last, hpath, hend⟩ := h.chained
  refine ⟨?_, { own := h.own, passed := h.passed }⟩
  constructor
  case bounded => exact h.bounded
  case defined => exact h.defined
  case returned =>
    intro steps heq
    obtain ⟨rfl, rfl⟩ := hend steps heq
    exact ⟨List.nil_append _, hpath⟩
  case exhausted =>
    rintro origin rfl name maxSteps heq
    exact ⟨h.exhausted name maxSteps heq, last, hpath⟩
  case strayed =>
    constructor
    · rintro ⟨origin, e, rfl, heq⟩
      exact h.strayed e heq
    · rintro ⟨call, hmem, decision, hcall, hnot⟩
      obtain ⟨before, after, hcalls⟩ := List.append_of_mem hmem
      exact ⟨.run, _, rfl, (h.final before call after hcalls decision hcall hnot).1⟩
  case final =>
    rintro before call after hcalls ⟨decision, hcall, hnot⟩
    exact (h.final before call after hcalls decision hcall hnot).2

/-- A graph whose node runs out of a budget of its own. -/
def nested : Graph Unit Empty where
  nodes := [("inner", fun s => (.error (.stepBudgetExceeded "inner" 3), s))]
  edges := [("inner", [END])]
  entry := "inner"
  accepted := rfl

theorem not_bounded_walk :
    ¬∀ onStep s, nested.BoundedWalk (fun _ => True) (nested.run onStep s) := by
  intro h
  obtain ⟨hlen, -⟩ := (h (fun _ s => (.ok (), s)) ()).exhausted .node trivial "inner" 3 rfl
  cases hlen

end Graph
end NexusGate.Agents
