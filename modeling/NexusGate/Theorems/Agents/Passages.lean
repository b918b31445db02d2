import NexusGate.Agents.Service
import Mathlib.Data.List.Perm.Basic

/-! # The passages of a run

The dictionary of a retrieval holds each passage that a search found, once and with its best score; its values are what the
hits are, whatever their order, up to ties. The passages are the first of them by score. -/

namespace NexusGate.Agents
open Rag

/-! ### The best hit of each passage -/

section Best
variable {topK : Nat} {hit h b : RetrievedChunk} {hits hits' best best' : List RetrievedChunk}

/-- Each passage that was hit, once, with the best of its hits. -/
structure Best (hits best : List RetrievedChunk) : Prop where
  nodup : (best.map key).Nodup
  found : ∀ b ∈ best, b ∈ hits
  covers : ∀ h ∈ hits, ∃ b ∈ best, key b = key h ∧ score h ≤ score b

theorem mem_keep (hb : b ∈ keep best hit) : b ∈ best ∨ b = hit := by
  induction best with
  | nil => exact .inr (List.mem_singleton.mp hb)
  | cons h best ih =>
    rw [keep] at hb
    split at hb
    · rcases List.mem_cons.mp hb with rfl | hb
      · split
        · exact .inr rfl
        · exact .inl List.mem_cons_self
      · exact .inl (List.mem_cons_of_mem _ hb)
    · rcases List.mem_cons.mp hb with rfl | hb
      · exact .inl List.mem_cons_self
      · exact (ih hb).imp_left (List.mem_cons_of_mem _)

/-- Each passage that was kept before still is, at least as good, and so is that of the hit. -/
theorem keep_covers : (∀ h ∈ best, ∃ b ∈ keep best hit, key b = key h ∧ score h ≤ score b) ∧
    ∃ b ∈ keep best hit, key b = key hit ∧ score hit ≤ score b := by
  induction best with
  | nil => exact ⟨nofun, hit, List.mem_singleton_self hit, rfl, le_rfl⟩
  | cons h best ih =>
    rw [keep]
    by_cases hkey : key h = key hit
    · rw [if_pos hkey]
      have hhead : key (if score h < score hit then hit else h) = key hit := by
        split
        · rfl
        · exact hkey
      refine ⟨List.forall_mem_cons.mpr ⟨⟨_, List.mem_cons_self, hhead.trans hkey.symm, ?_⟩, fun b hb =>
        ⟨b, List.mem_cons_of_mem _ hb, rfl, le_rfl⟩⟩, _, List.mem_cons_self, hhead, ?_⟩
      · split
        · rename_i hlt
          exact hlt.le
        · exact le_rfl
      · split
        · exact le_rfl
        · rename_i hle
          exact not_lt.mp hle
    · rw [if_neg hkey]
      obtain ⟨hkept, b, hb, hcov⟩ := ih
      refine ⟨List.forall_mem_cons.mpr ⟨⟨h, List.mem_cons_self, rfl, le_rfl⟩, fun x hx => ?_⟩, b, List.mem_cons_of_mem _ hb, hcov⟩
      obtain ⟨c, hc, hcx⟩ := hkept x hx
      exact ⟨c, List.mem_cons_of_mem _ hc, hcx⟩

theorem keys_keep {k : String × Nat} : k ∈ (keep best hit).map key → k ∈ best.map key ∨ k = key hit := by
  intro hk
  obtain ⟨b, hb, rfl⟩ := List.mem_map.mp hk
  rcases mem_keep hb with hb | rfl
  · exact .inl (List.mem_map_of_mem hb)
  · exact .inr rfl

theorem nodup_keep (h : (best.map key).Nodup) : ((keep best hit).map key).Nodup := by
  induction best with
  | nil => exact List.nodup_singleton _
  | cons b best ih =>
    obtain ⟨hb, htail⟩ := List.nodup_cons.mp h
    rw [keep]
    split
    · rename_i hkey
      refine List.nodup_cons.mpr ⟨?_, htail⟩
      split
      · exact hkey ▸ hb
      · exact hb
    · rename_i hkey
      exact List.nodup_cons.mpr ⟨fun hk => (keys_keep hk).elim hb hkey, ih htail⟩

theorem Best.keep (B : Best hits best) : Best (hits ++ [hit]) (keep best hit) where
  nodup := nodup_keep B.nodup
  found b hb := (mem_keep hb).elim (fun hb => List.mem_append_left _ (B.found b hb)) fun heq =>
    List.mem_append_right _ (List.mem_singleton.mpr heq)
  covers h hh := by
    obtain ⟨hkept, hhit⟩ := @keep_covers hit best
    rcases List.mem_append.mp hh with hh | hh
    · obtain ⟨b, hb, hkey, hle⟩ := B.covers h hh
      obtain ⟨c, hc, hkey', hle'⟩ := hkept b hb
      exact ⟨c, hc, hkey'.trans hkey, hle.trans hle'⟩
    · rw [List.mem_singleton.mp hh]
      exact hhit

theorem best_foldl (B : Best hits best) : Best (hits ++ hits') (hits'.foldl Agents.keep best) := by
  induction hits' generalizing hits best with
  | nil => rwa [List.append_nil]
  | cons hit hits' ih =>
    have hkeep : Best (hits ++ [hit]) (Agents.keep best hit) := B.keep
    have := ih hkeep
    rwa [List.append_assoc, List.singleton_append] at this

theorem best_of_hits : Best hits (hits.foldl Agents.keep []) := by
  have hnil : Best [] [] := ⟨List.nodup_nil, nofun, nofun⟩
  exact best_foldl hnil

theorem eq_of_key (hnodup : (best.map key).Nodup) (hh : h ∈ best) (hb : b ∈ best) (hkey : key h = key b) : h = b :=
  List.inj_on_of_nodup_map hnodup hh hb hkey

/-- Without ties the best hits do not depend on the order. -/
theorem Best.subset (B : Best hits best) (B' : Best hits' best') (hperm : hits.Perm hits')
    (hties : ∀ a ∈ hits, ∀ b ∈ hits, score a = score b → a = b) : ∀ b ∈ best, b ∈ best' := by
  intro b hb
  obtain ⟨b', hb', hkey', hle'⟩ := B'.covers b (hperm.mem_iff.mp (B.found b hb))
  have hmem' := hperm.mem_iff.mpr (B'.found b' hb')
  obtain ⟨c, hc, hkey, hle⟩ := B.covers b' hmem'
  have hcb : c = b := eq_of_key B.nodup hc hb (hkey.trans hkey')
  rw [hcb] at hle
  rw [hties b (B.found b hb) b' hmem' (le_antisymm hle' hle)]
  exact hb'

theorem Best.perm (B : Best hits best) (B' : Best hits' best') (hperm : hits.Perm hits')
    (hties : ∀ a ∈ hits, ∀ b ∈ hits, score a = score b → a = b) : best.Perm best' := by
  refine (List.perm_ext_iff_of_nodup B.nodup.of_map B'.nodup.of_map).mpr fun b => ⟨B.subset B' hperm hties b, ?_⟩
  refine B'.subset B hperm.symm (fun a ha c hc => ?_) b
  exact hties a (hperm.mem_iff.mpr ha) c (hperm.mem_iff.mpr hc)

end Best

/-! ### The first of them -/

/-- Two hits are on one passage. -/
def SamePassage (a b : RetrievedChunk) : Prop := a.chunk.docId = b.chunk.docId ∧ a.chunk.chunkIndex = b.chunk.chunkIndex

theorem samePassage_iff {a b : RetrievedChunk} : SamePassage a b ↔ key a = key b := Prod.mk.injEq .. ▸ Iff.rfl

/-- The passages are the first `topK` by score of those that the hits have, each with the best of its hits. -/
structure TopPassages (topK : Nat) (hits passages : List RetrievedChunk) : Prop where
  atMost : passages.length ≤ topK
  distinct : passages.Pairwise fun a b => ¬SamePassage a b
  sorted : passages.Pairwise fun a b => score b ≤ score a
  best : ∀ p ∈ passages, p ∈ hits ∧ ∀ h ∈ hits, SamePassage h p → score h ≤ score p
  leftOut : ∀ h ∈ hits, (∀ p ∈ passages, ¬SamePassage h p) → passages.length = topK ∧ ∀ p ∈ passages, score h ≤ score p

section Top
variable {topK : Nat} {hits hits' best best' : List RetrievedChunk}

/-- The order of `retrieve`: the better score comes first. -/
def byScore (a b : RetrievedChunk) : Bool := decide (score b ≤ score a)

theorem sorted_byScore : (best.mergeSort byScore).Pairwise fun a b => score b ≤ score a := by
  refine (List.pairwise_mergeSort ?_ ?_ best).imp of_decide_eq_true
  · exact fun a b c hab hbc => decide_eq_true ((of_decide_eq_true hbc).trans (of_decide_eq_true hab))
  · exact fun a b => by simpa [byScore] using le_total (score b) (score a)

theorem Best.top (B : Best hits best) : TopPassages topK hits (top topK best) := by
  have hperm : (best.mergeSort byScore).Perm best := List.mergeSort_perm best byScore
  have hmem : ∀ p ∈ Agents.top topK best, p ∈ best := fun p hp => hperm.mem_iff.mp (List.mem_of_mem_take hp)
  have hnodup : ((best.mergeSort byScore).map key).Nodup := (hperm.map key).nodup_iff.mpr B.nodup
  constructor
  case atMost => exact List.length_take_le _ _
  case distinct =>
    have hkeys := hnodup.sublist ((List.take_sublist topK _).map key)
    exact (List.pairwise_map.mp hkeys).imp fun hne hsame => hne (samePassage_iff.mp hsame)
  case sorted => exact sorted_byScore.sublist (List.take_sublist _ _)
  case best =>
    intro p hp
    refine ⟨B.found p (hmem p hp), fun h hh hsame => ?_⟩
    obtain ⟨b, hb, hkeyb, hle⟩ := B.covers h hh
    rwa [eq_of_key B.nodup hb (hmem p hp) (hkeyb.trans (samePassage_iff.mp hsame))] at hle
  case leftOut =>
    intro h hh hout
    obtain ⟨b, hb, hkey, hle⟩ := B.covers h hh
    -- The best hit of a passage that is left out stands behind the cut.
    have hb' : b ∈ (best.mergeSort byScore).take topK ++ (best.mergeSort byScore).drop topK := by
      rw [List.take_append_drop]
      exact hperm.mem_iff.mpr hb
    have hdrop : b ∈ (best.mergeSort byScore).drop topK :=
      (List.mem_append.mp hb').resolve_left fun hin => hout b hin (samePassage_iff.mpr hkey.symm)
    have hlen : topK ≤ (best.mergeSort byScore).length := by
      by_contra hlt
      rw [List.drop_eq_nil_of_le (Nat.le_of_lt (Nat.lt_of_not_le hlt))] at hdrop
      cases hdrop
    refine ⟨List.length_take_of_le hlen, fun p hp => hle.trans ?_⟩
    have hsorted := @sorted_byScore best
    rw [← List.take_append_drop topK (best.mergeSort byScore)] at hsorted
    exact (List.pairwise_append.mp hsorted).2.2 p hp b hdrop

theorem top_perm (hperm : best.Perm best') (hties : ∀ a ∈ best, ∀ b ∈ best, score a = score b → a = b) :
    top topK best = top topK best' := by
  have hsort : best.mergeSort byScore = best'.mergeSort byScore := by
    have hsorts : (best.mergeSort byScore).Perm (best'.mergeSort byScore) :=
      (List.mergeSort_perm best byScore).trans (hperm.trans (List.mergeSort_perm best' byScore).symm)
    refine List.Perm.eq_of_pairwise (fun a b ha hb hle hle' => ?_) sorted_byScore sorted_byScore hsorts
    exact hties a (List.mem_mergeSort.mp ha) b (hperm.mem_iff.mpr (List.mem_mergeSort.mp hb)) (le_antisymm hle' hle)
  exact congrArg (List.take topK) hsort

end Top

/-! ### The node -/

section Retrieve
variable {W : Type} {services : Services W} {s : Session W} {queries : List String} {best : List RetrievedChunk}

/-- The searches are answered with these hits, one after the other. -/
inductive Searches (services : Services W) (tenantId : String) (topK : Nat) :
    List String → W → List (List RetrievedChunk) → W → Prop
  | nil {world : W} : Searches services tenantId topK [] world [] world
  | cons {query : String} {queries : List String} {world world' world'' : W} {hits : List RetrievedChunk}
      {rest : List (List RetrievedChunk)} (answered : services.search tenantId query topK true world = (.ok hits, world'))
      (others : Searches services tenantId topK queries world' rest world'') :
      Searches services tenantId topK (query :: queries) world (hits :: rest) world''

theorem merge_ok {world world' : W} {hits : List (List RetrievedChunk)}
    (h : Searches services s.research.principal.tenantId s.research.topK queries world hits world') :
    AgentNodes.merge services queries best { s with world } = (.ok (hits.flatten.foldl keep best), { s with world := world' }) := by
  induction h generalizing best with
  | nil => rfl
  | @cons query queries world world' world'' hits rest answered others ih =>
    rw [List.flatten_cons, List.foldl_append, ← ih, AgentNodes.merge]
    have hsearch : AgentNodes.search services query { s with world } = (.ok hits, { s with world := world' }) := by
      rw [AgentNodes.search, answered]
    rw [Act.bind_ok hsearch]

/-- All that `retrieve` needs of its hits. -/
theorem retrieve_ok {world' : W} {hits : List (List RetrievedChunk)}
    (h : Searches services s.research.principal.tenantId s.research.topK s.research.searches s.world hits world') :
    ∃ next, (AgentNodes.retrieve services s).1 = .ok next ∧
      (AgentNodes.retrieve services s).2.research.passages = top s.research.topK (hits.flatten.foldl keep []) := by
  have hmerge : AgentNodes.merge services s.research.searches [] s = _ := merge_ok h
  rw [AgentNodes.retrieve, Act.state_bind, Act.bind_ok hmerge]
  by_cases hnil : top s.research.topK (hits.flatten.foldl keep []) = []
  all_goals
    simp only [Act.modify_bind, hnil]
    exact ⟨_, rfl, rfl⟩

/-- A retrieval takes the true top passages of its hits, and without ties the same ones in whatever order the searches and
    their hits come. -/
theorem retrieve_top {W : Type} (services : Services W) (s : Session W) {world' : W} {hits : List (List RetrievedChunk)}
    (h : Searches services s.research.principal.tenantId s.research.topK s.research.searches s.world hits world') :
    (∃ next, (AgentNodes.retrieve services s).1 = .ok next) ∧
      TopPassages s.research.topK hits.flatten (AgentNodes.retrieve services s).2.research.passages ∧
      ∀ (services' : Services W) (s' : Session W) (world'' : W) (hits' : List (List RetrievedChunk)),
        Searches services' s'.research.principal.tenantId s'.research.topK s'.research.searches s'.world hits' world'' →
        s'.research.topK = s.research.topK → hits.flatten.Perm hits'.flatten →
        (∀ a ∈ hits.flatten, ∀ b ∈ hits.flatten, score a = score b → a = b) →
        (AgentNodes.retrieve services' s').2.research.passages = (AgentNodes.retrieve services s).2.research.passages := by
  obtain ⟨next, hnext, hpassages⟩ := retrieve_ok h
  refine ⟨⟨next, hnext⟩, hpassages ▸ best_of_hits.top, ?_⟩
  intro services' s' world'' hits' h' htop hperm hties
  obtain ⟨-, -, hpassages'⟩ := retrieve_ok h'
  have hbest : (hits.flatten.foldl keep []).Perm (hits'.flatten.foldl keep []) := best_of_hits.perm best_of_hits hperm hties
  rw [hpassages, hpassages', htop]
  refine (top_perm hbest fun a ha b hb => ?_).symm
  exact hties a (best_of_hits.found a ha) b (best_of_hits.found b hb)

/-- A hit on the handbook. -/
def handbook (chunkIndex : Nat) (score : ℚ) : RetrievedChunk where
  chunk := { docId := "doc1", chunkIndex, text := "postmortem in three days", title := "Handbook", page := none, heading := none, score }

/-- Two searches that both find the first chunk. -/
def twice : Services Unit where
  complete _ _ _ := (.error .overloaded, ())
  search _ query _ _ _ := (.ok (if query = "q1" then [handbook 0 (2 / 5), handbook 5 (3 / 5)] else [handbook 0 (9 / 10)]), ())

def planned : Session Unit where
  research :=
    { question := "When?", principal := { tenantId := "acme", keyId := "k" }, model := "default", topK := 5, maxSearches := 3
      maxRevisions := 1, cache := true, searches := ["q1", "q2"] }
  world := ()

theorem retrieve_top_twice : TopPassages 5 [handbook 0 (2 / 5), handbook 5 (3 / 5), handbook 0 (9 / 10)]
    (AgentNodes.retrieve twice planned).2.research.passages :=
  (retrieve_top twice planned (.cons rfl (.cons rfl .nil))).2.1

end Retrieve

end NexusGate.Agents
