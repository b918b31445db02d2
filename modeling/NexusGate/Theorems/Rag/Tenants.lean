import Mathlib
import NexusGate.Async.Isolation
import NexusGate.Rag.VectorStore
import NexusGate.Theorems.Rag.Windows

/-! # Tenants of one collection

Every request that a call sends names its tenant: a deletion and a query by their filters, a batch by the payloads and the
ids of its points, which are hashes of texts that begin with the tenant and can be read back from their ends. What the
calls of a tenant see and leave is therefore the same without the calls of the others. -/

namespace NexusGate.Rag
open Async Async.System Qdrant

/-! ### Names of points -/

theorem slash_not_mem_repr {n : Nat} : '/' ∉ (toString n).toList := by
  intro h
  have hdigits : (toString n).toList = Nat.toDigits 10 n := Nat.toList_repr
  rw [hdigits] at h
  exact absurd (Nat.isDigit_of_mem_toDigits (by decide) (by decide) h) (by decide)

theorem DocumentId.slash_not_mem (d : DocumentId) : '/' ∉ d.hex.toList := fun h =>
  absurd (List.all_eq_true.mp d.digits '/' h) (by decide)

theorem DocumentId.ext_hex {d d' : DocumentId} (h : d.hex = d'.hex) : d = d' := by
  cases d
  cases d'
  cases h
  rfl

/-- The hashed text tells tenant, document and chunk, whatever is in the tenant's name. -/
theorem pointName_inj {t t' : String} {d d' : DocumentId} {n n' : Nat} (h : pointName t d.hex n = pointName t' d'.hex n') :
    t = t' ∧ d = d' ∧ n = n' := by
  obtain ⟨hdoc, hn⟩ := Text.eq_of_last_sep (rfl : "/".toList = ['/']) slash_not_mem_repr slash_not_mem_repr h
  obtain ⟨ht, hd⟩ := Text.eq_of_last_sep (rfl : "/".toList = ['/']) d.slash_not_mem d'.slash_not_mem hdoc
  exact ⟨ht, DocumentId.ext_hex hd, Nat.repr_inj.mp hn⟩

/-! ### What a call hands out -/

section Requests
variable {D : Type} {self : QdrantChunkStore} {t : String}

/-- A point of the tenant under an id of the tenant. -/
def Belongs (self : QdrantChunkStore) (t : String) (x : String × Point D) : Prop :=
  x.2.payload.tenantId = t ∧ ∃ (d : DocumentId) (n : Nat), x.1 = self.pointId t d.hex n

/-- The requests of a tenant. -/
inductive Asks (self : QdrantChunkStore) (t : String) : Op D → Prop
  | delete {docId : Option String} : Asks self t (.delete (tenantFilter t docId))
  | upsert {points : List (String × Point D)} (h : ∀ x ∈ points, Belongs self t x) : Asks self t (.upsert points)
  | query {q : Query} (h : q.filter = tenantFilter t) : Asks self t (.queryPoints q)

theorem upsertAll_hands : ∀ {batches : List (List (String × Point D))}, (∀ batch ∈ batches, ∀ x ∈ batch, Belongs self t x) →
    Hands (Asks self t) (QdrantChunkStore.upsertAll batches)
  | [], _ => trivial
  | batch :: _, h =>
    Hands.bind (Hands.call (.upsert (h batch List.mem_cons_self))) fun _ =>
      upsertAll_hands fun b hb => h b (List.mem_cons_of_mem _ hb)

theorem replaceDocument_hands {docId : DocumentId} {title : String} {chunks : List Chunk} {vectors : List D} :
    Hands (Asks self t) (self.replaceDocument t docId.hex title chunks vectors) := by
  refine Hands.bind (Hands.call .delete) fun _ => Hands.bind (Follows.ofExcept_iff.mpr trivial) fun pairs => ?_
  refine upsertAll_hands fun batch hbatch x hx => ?_
  have hmem := List.mem_flatten_of_mem hbatch hx
  rw [flatten_slices (by decide)] at hmem
  obtain ⟨y, -, rfl⟩ := List.mem_map.mp hmem
  exact ⟨rfl, docId, y.1.index, rfl⟩

theorem search_hands {limit : Nat} : Hands (Asks self t) (QdrantChunkStore.search t limit : Program D _) :=
  Hands.bind (Hands.call (.query rfl)) fun _ => trivial

theorem hybridSearch_hands {query : String} {limit : Nat} :
    Hands (Asks self t) (self.hybridSearch t query limit : Program D _) := by
  unfold QdrantChunkStore.hybridSearch
  split
  · exact Hands.bind (Hands.call (.query rfl)) fun _ => trivial
  · exact search_hands

theorem body_hands (c : QdrantChunkStore.Call D) : Hands (Asks self c.tenantId) (self.body c) := by
  cases c with
  | replaceDocument => exact Hands.bind replaceDocument_hands fun _ => trivial
  | deleteDocument => exact Hands.bind (Hands.call .delete) fun _ => trivial
  | search => exact Hands.bind search_hands fun _ => trivial
  | hybridSearch => exact Hands.bind hybridSearch_hands fun _ => trivial

/-! ### What a request does -/

theorem accepts_tenant {docId : Option String} {p : Payload} (h : (tenantFilter t docId).accepts p = true) : p.tenantId = t :=
  eq_of_beq (List.all_eq_true.mp h _ List.mem_cons_self)

/-- Every point has an id of its tenant. -/
def Named (self : QdrantChunkStore) (c : Collection String (Point D)) : Prop :=
  ∀ id p, c id = some p → Belongs self p.payload.tenantId (id, p)

/-- `v` has the points of `c` that are the tenant's. -/
def View (self : QdrantChunkStore) (t : String) (c v : Collection String (Point D)) : Prop :=
  Named self c ∧ ∀ id, v id = (c id).filter fun p => p.payload.tenantId == t

variable {c v : Collection String (Point D)} {e : Op D}

theorem Asks.named {t' : String} (he : Asks self t' e) (h : Named self c) : Named self (e.effect c) := by
  cases he with
  | delete => exact fun id p hp => h id p (delete_eq_some.mp hp).1
  | upsert hpoints =>
    intro id p hp
    rcases of_upsert hp with hp | hp
    · obtain ⟨ht, hid⟩ := hpoints _ hp
      exact ⟨rfl, ht ▸ hid⟩
    · exact h id p hp
  | query => exact h

/-- A request of the tenant does the same to its points alone. -/
theorem Asks.own (he : Asks self t e) (h : View self t c v) : View self t (e.effect c) (e.effect v) := by
  refine ⟨he.named h.1, fun id => ?_⟩
  cases he with
  | @delete docId =>
    show Option.filter _ (v id) = Option.filter _ (Option.filter _ (c id))
    rw [h.2 id, Option.filter_filter, Option.filter_filter]
    exact congrArg (fun q => Option.filter q (c id)) (funext fun p => Bool.and_comm ..)
  | upsert hpoints =>
    simp only [Op.effect, upsert_eq, h.2 id]
    cases hw : written _ id with
    | none => rfl
    | some p =>
      have ht : p.payload.tenantId = t := (hpoints _ (mem_of_written hw)).1
      simp [Option.filter, ht]
  | query => exact h.2 id

/-- A request of another tenant does nothing to them. -/
theorem Asks.foreign (huuid : Function.Injective self.uuid5) {t' : String} (he : Asks self t' e) (hne : t' ≠ t) (h : View self t c v) :
    View self t (e.effect c) v := by
  refine ⟨he.named h.1, fun id => ?_⟩
  cases he with
  | @delete docId =>
    show v id = Option.filter _ (Option.filter _ (c id))
    rw [h.2 id, Option.filter_filter]
    cases c id with
    | none => rfl
    | some p =>
      by_cases hp : p.payload.tenantId = t
      · have hkept : (tenantFilter t' docId).accepts p.payload = false := by
          rw [Bool.eq_false_iff]
          exact fun hacc => hne ((accepts_tenant hacc).symm.trans hp)
        simp [Option.filter, hp, hkept]
      · simp [Option.filter, hp]
  | upsert hpoints =>
    rw [h.2 id, Op.effect, upsert_eq]
    cases hw : written _ id with
    | none => rfl
    | some p =>
      obtain ⟨ht', d', n', hid'⟩ := hpoints _ (mem_of_written hw)
      have hold : (c id).filter (fun q => q.payload.tenantId == t) = none := by
        rw [Option.filter_eq_none_iff]
        intro q hq hqt
        obtain ⟨-, d, n, hid⟩ := h.1 id q hq
        exact hne ((pointName_inj (huuid (hid'.symm.trans hid))).1.trans (eq_of_beq hqt))
      have hp : p.payload.tenantId ≠ t := fun hp => hne (ht'.symm.trans hp)
      rw [hold]
      simp [Option.filter, hp]
  | query => exact h.2 id

/-- A query of the tenant finds the same in its points alone. -/
theorem answer_view {q : Query} (hq : q.filter = tenantFilter t) (h : View self t c v) (ranking : List (String × ℚ)) :
    q.answer c ranking = q.answer v ranking := by
  unfold Query.answer
  congr 2
  funext ⟨id, score⟩
  dsimp only
  rw [h.2 id, Option.filter_filter]
  congr 1
  cases c id with
  | none => rfl
  | some p =>
    by_cases hp : q.accepts p.payload = true
    · have ht : p.payload.tenantId = t := by
        rw [Query.accepts, Bool.and_eq_true, hq] at hp
        exact accepts_tenant hp.1
      simp [Option.filter, hp, ht]
    · simp [Option.filter, hp]

theorem answer_tenant {q : Query} (hq : q.filter = tenantFilter t) {ranking : List (String × ℚ)} {hit : Hit D}
    (h : hit ∈ q.answer c ranking) : hit.point.payload.tenantId = t := by
  obtain ⟨x, -, hx⟩ := List.mem_filterMap.mp (List.mem_of_mem_take h)
  obtain ⟨p, hp, rfl⟩ := Option.map_eq_some_iff.mp hx
  have hacc := (Option.filter_eq_some_iff.mp hp).2
  rw [Query.accepts, Bool.and_eq_true, hq] at hacc
  exact accepts_tenant hacc.1

end Requests

/-! ### Runs -/

section Runs
variable {D : Type} {self : QdrantChunkStore}

/-- What a request leaves is what it does, or nothing. -/
theorem exec_effect {e : Op D} {choice : Choice} {c c' : Collection String (Point D)} {r : Except Exn e.Reply}
    (h : execQdrant e choice c = some (r, c')) : c' = e.effect c ∨ c' = c := by
  cases choice with
  | done => cases e <;> cases h <;> exact Or.inl rfl
  | ranked ranking => cases e <;> cases h; exact Or.inl rfl
  | failed carriedOut => cases carriedOut <;> cases e <;> cases h <;> simp

/-- The same request on the tenant's points alone. -/
theorem exec_own {t : String} {e : Op D} {choice : Choice} {c c' v : Collection String (Point D)} {r : Except Exn e.Reply}
    (he : Asks self t e) (hview : View self t c v) (h : execQdrant e choice c = some (r, c')) :
    ∃ v', execQdrant e choice v = some (r, v') ∧ View self t c' v' := by
  have hown := he.own hview
  cases choice with
  | done => cases he <;> cases h <;> exact ⟨_, rfl, hown⟩
  | ranked ranking =>
    cases he with
    | delete => cases h
    | upsert => cases h
    | query hq =>
      cases h
      exact ⟨v, by rw [execQdrant, answer_view hq hview], hview⟩
  | failed carriedOut =>
    cases carriedOut
    · cases he <;> cases h <;> exact ⟨v, rfl, hview⟩
    · cases he <;> cases h <;> exact ⟨_, rfl, hown⟩

/-- The calls of a tenant. -/
def mine (t : String) (c : QdrantChunkStore.Call D) : Bool := c.tenantId == t

theorem apart (huuid : Function.Injective self.uuid5) (t : String) :
    Apart (self.system D) (mine t) (fun c => Asks self (QdrantChunkStore.Call.tenantId c)) (View self t) where
  hands := body_hands
  suspends _ := rfl
  admits _ _ h := h
  own hview hmine he h := by
    rw [← eq_of_beq hmine] at hview ⊢
    exact exec_own he hview h
  foreign := by
    rintro c e choice s v ⟨r, s'⟩ hview hmine he h
    have hne : QdrantChunkStore.Call.tenantId c ≠ t := fun ht => Bool.false_ne_true (hmine.symm.trans (beq_iff_eq.mpr ht))
    rcases exec_effect h with rfl | rfl
    · exact he.foreign huuid hne hview
    · exact hview
  env {a} := nomatch a

theorem fresh_projects {t : String} : Projects (mine t) (fun c => Asks self (QdrantChunkStore.Call.tenantId c)) (View self t)
    (QdrantChunkStore.fresh D self) (QdrantChunkStore.fresh D self) where
  state := ⟨nofun, fun _ => rfl⟩
  threads _ := rfl
  trace := rfl
  busy := rfl
  hands := nofun

/-- What a run leaves of a tenant's points, and what the tenant has seen, the tenant's own calls leave and see alone. -/
def AloneAlike (t : String) (w : (self.system D).World) : Prop :=
  ∃ v, World.Reaches World.anyStep (QdrantChunkStore.fresh D self) v ∧ v.trace = w.trace.filter (fun e => mine t (Event.call e)) ∧
    ∀ id, v.state id = (w.state id).filter fun p => p.payload.tenantId == t

/-- Every hit that a call has received is a point of its tenant. -/
def HitsOwn (trace : List (self.system D).Event) : Prop :=
  ∀ i (c : QdrantChunkStore.Call D) q (hits : List (Hit D)), Event.did i c (Op.queryPoints q) (Except.ok hits) ∈ trace →
    ∀ hit ∈ hits, hit.point.payload.tenantId = c.tenantId

/-- Every call of the store is watched for the tenant it asks about. -/
def asking (self : QdrantChunkStore) (D : Type) : Watch (self.system D) where
  G := Unit
  monitor c := ⟨fun _ e => Asks self (QdrantChunkStore.Call.tenantId c) e, fun _ _ _ _ => True⟩
  first _ := ()
  last _ _ _ := True

theorem hitsOwn_rules : Rules (asking self D) World.anyStep fun _ tr _ => HitsOwn tr where
  start := fun _ hJ _ _ _ i c q hits h => hJ i c q hits ((List.mem_cons.mp h).resolve_left nofun)
  op := by
    intro w Γ i choice c g e r s _ hJ _ _ hmay hexec _
    refine ⟨(), trivial, fun j d q hits h => ?_⟩
    rcases List.mem_cons.mp h with h | h
    · cases h
      cases hmay with
      | query hq =>
        cases choice with
        | ranked ranking =>
          cases hexec
          exact fun hit hmem => answer_tenant hq hmem
        | done => cases hexec
        | failed => cases hexec
    · exact hJ j d q hits h
  ended := fun hJ _ _ i c q hits h => hJ i c q hits ((List.mem_cons.mp h).resolve_left nofun)
  kill := fun _ hJ _ _ _ i c q hits h => hJ i c q hits ((List.mem_cons.mp h).resolve_left nofun)
  env := fun _ hJ _ _ => hJ

/-- No tenant touches the chunks of another. -/
structure TenantsApart (D : Type) (self : QdrantChunkStore) : Prop where
  alone : ∀ {w : (self.system D).World}, World.Reaches World.anyStep (QdrantChunkStore.fresh D self) w → ∀ t, AloneAlike t w
  hits : ∀ {w : (self.system D).World}, World.Reaches World.anyStep (QdrantChunkStore.fresh D self) w → HitsOwn w.trace
  names : ∀ {t t' : String} {d d' : DocumentId} {n n' : Nat}, pointName t d.hex n = pointName t' d'.hex n' → t = t' ∧ d = d' ∧ n = n'

theorem tenants_apart (D : Type) (self : QdrantChunkStore) (huuid : Function.Injective self.uuid5) : TenantsApart D self where
  alone h t := by
    obtain ⟨v, hv, hproj⟩ := fresh_projects.reaches (apart huuid t) h
    exact ⟨v, hv, hproj.trace, hproj.state.2⟩
  hits h :=
    have ⟨_, _, hhits⟩ := (hitsOwn_rules (D := D)).reaches (V := asking self D) body_hands h ⟨fun _ => none, fun _ => rfl, nofun⟩
    hhits
  names := pointName_inj

theorem tenants_apart_id : TenantsApart Unit ⟨true, id, fun _ => [], fun _ => []⟩ := tenants_apart _ _ Function.injective_id

end Runs
end NexusGate.Rag
