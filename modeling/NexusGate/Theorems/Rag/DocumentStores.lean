import NexusGate.Theorems.Rag.IngestSteps

/-! # What a request does to a document

A document is its points and its registration: the record, and the member of the tenant's index. A request of a call on
another document leaves all of them as they are. -/

namespace NexusGate.Rag.Ingest
open Async Async.System Redis Qdrant

variable {D : Type} {self : IngestionService D}

/-! ### Calls and their requests -/

namespace Call

/-- The document that a call is about. -/
def account (self : IngestionService D) : Call → Option (String × String)
  | .ingest _ t u => some (t, (self.documentId u.data).hex)
  | .delete t d => some (t, d)
  | .list _ => none

/-- What a call sends to the chunk store. -/
def batches (self : IngestionService D) : Call → List (List (String × Point D))
  | .ingest ch t u => (self.withChunker ch).batches t u
  | .delete _ _ | .list _ => []

/-- What it leaves there. -/
def points (self : IngestionService D) : Call → List (String × Point D)
  | .ingest ch t u => (self.withChunker ch).points t u
  | .delete _ _ | .list _ => []

theorem flatten_batches {c : Call} : (c.batches self).flatten = c.points self := by
  cases c with
  | ingest ch t u => exact batches_flatten
  | delete | list => rfl

/-- A point that a call leaves is one of its document. -/
theorem mem_points {c : Call} {t d : String} {x : String × Point D} (h : x ∈ c.points self) (hc : c.account self = some (t, d)) :
    x.2.payload.tenantId = t ∧ x.2.payload.docId = d ∧
      ∃ doc : DocumentId, d = doc.hex ∧ x.1 = self.store.pointId t d x.2.payload.chunkIndex := by
  cases c with
  | ingest ch t u =>
    cases hc
    obtain ⟨ht, hd, hid⟩ := Ingest.mem_points h
    exact ⟨ht, hd, _, rfl, hid⟩
  | delete | list => cases h

theorem points_unique {c : Call} (huuid : Function.Injective self.store.uuid5) {id : String} {p q : Point D}
    (hp : (id, p) ∈ c.points self) (hq : (id, q) ∈ c.points self) : p = q := by
  cases c with
  | ingest ch t u => exact @Ingest.points_unique _ (self.withChunker ch) t u huuid id p q hp hq
  | delete | list => cases hp

end Call

/-- A request that neither store notices. -/
def Op.quiet : Op D → Bool
  | .parse _ | .embed _ | .clock => true
  | .redis c => c.writes.isEmpty
  | .qdrant _ | .multi _ => false

/-- What a call may request. -/
inductive Deed (self : IngestionService D) : Call → Phase → Op D → Prop
  | clear {c t d} (h : c.account self = some (t, d)) : Deed self c .preparing (.qdrant (.delete (tenantFilter t (some d))))
  | send {c k batch} (h : (c.batches self)[k]? = some batch) : Deed self c (.sending k) (.qdrant (.upsert batch))
  | put {ch t u r now} (h : (self.withChunker ch).recordOf u now = some r) :
    Deed self (.ingest ch t u) (.sending ((self.withChunker ch).batches t u).length) (.multi (Registry.putCmds t r))
  | drop {t d} : Deed self (.delete t d) (.sending 0) (.multi (Registry.deleteCmds t d))
  | idle {c g e} (h : e.quiet = true) (hg : g = .preparing ∨ e = .clock ∨ c.account self = none) : Deed self c g e

theorem deed_of_may {c : Call} {g : Phase} {e : Op D} (h : (monitor self c).may g e) : Deed self c g e := by
  cases c with
  | ingest ch t u =>
    cases h with
    | parse | embed => exact .idle rfl (Or.inl rfl)
    | clock => exact .idle rfl (Or.inr (Or.inl rfl))
    | begin => exact .clear rfl
    | send h => exact .send h
    | put h => exact .put h
  | delete t d =>
    cases h with
    | get => exact .idle rfl (Or.inl rfl)
    | clear => exact .clear rfl
    | drop => exact .drop
  | list t =>
    cases h with
    | read h => exact .idle (List.isEmpty_iff.mpr h) (Or.inr (Or.inr rfl))

theorem exec_of_writes_nil {now : Nat} {c : Cmd Blob} {redis : Store Blob} (h : c.writes = []) : (Redis.exec now c redis).2 = redis := by
  cases c <;> simp only [Cmd.writes, List.cons_ne_nil] at h <;> simp only [Redis.exec]
  case del => rw [h]; rfl
  all_goals split <;> rfl

theorem Op.quiet_effect {e : Op D} (h : e.quiet = true) (s : State D) : e.effect s = s := by
  cases e with
  | redis c => exact congrArg (fun r => { s with redis := r }) (exec_of_writes_nil (List.isEmpty_iff.mp h))
  | parse | embed | clock => rfl
  | qdrant | multi => cases h

theorem advance_quiet {e : Op D} (h : e.quiet = true) {g : Phase} {r : Except Exn e.Reply} :
    advance g e r = g ∨ advance g e r = .over := by
  cases r with
  | error x => exact Or.inr advance_error
  | ok a =>
    cases e with
    | qdrant | multi => cases h
    | parse | embed | clock | redis => cases g <;> exact Or.inl rfl

/-- A request is carried out, or it fails, carried out or not. -/
theorem exec_cases {e : Op D} {choice : Choice} {s s' : State D} {r : Except Exn e.Reply} (h : exec self e choice s = some (r, s')) :
    ((∃ a, r = .ok a) ∧ s' = e.effect s) ∨ ((∃ x, r = .error x) ∧ (s' = e.effect s ∨ s' = s)) := by
  have answered {r : Except Exn e.Reply} : ((∃ a, r = .ok a) ∧ e.effect s = e.effect s) ∨
      ((∃ x, r = .error x) ∧ (e.effect s = e.effect s ∨ e.effect s = s)) := by
    cases r with
    | ok a => exact Or.inl ⟨⟨a, rfl⟩, rfl⟩
    | error x => exact Or.inr ⟨⟨x, rfl⟩, Or.inl rfl⟩
  cases choice with
  | done => cases e <;> cases h <;> exact answered
  | failed carriedOut => cases carriedOut <;> cases e <;> cases h <;> simp
  | time now =>
    cases e <;> cases h
    exact Or.inl ⟨⟨now, rfl⟩, rfl⟩

/-- A step of a call, as its monitor sees it. -/
theorem exec_next {c : Call} {g : Phase} {e : Op D} {choice : Choice} {s s' : State D} {r : Except Exn e.Reply}
    (h : exec self e choice s = some (r, s')) : (monitor self c).next g e r (advance g e r) := by
  have honest : Honest self e r := by
    cases e with
    | parse u =>
      cases choice with
      | done =>
        cases h
        simp only [Op.answer]
        cases hparse : self.parse u with
        | ok sections => exact hparse
        | error x => trivial
      | failed =>
        cases h
        trivial
      | time => cases h
    | embed texts =>
      cases choice with
      | done =>
        cases h
        rfl
      | failed =>
        cases h
        trivial
      | time => cases h
    | qdrant | redis | multi | clock => cases r <;> trivial
  cases c <;> exact ⟨honest, rfl⟩

/-! ### Points -/

/-- The payload is one of the document. -/
def Of (t d : String) (p : Payload) : Prop := p.tenantId = t ∧ p.docId = d

theorem accepts_iff {t d : String} {p : Payload} : (tenantFilter t (some d)).accepts p = true ↔ Of t d p := by
  simp [tenantFilter, Filter.accepts, Payload.field, Of]

/-- Every point has an id of its document. -/
def Filed (self : IngestionService D) (c : Collection String (Point D)) : Prop :=
  ∀ id p, c id = some p →
    ∃ (doc : DocumentId) (n : Nat), p.payload.docId = doc.hex ∧ id = self.store.pointId p.payload.tenantId doc.hex n

section Points
variable {c : Call} {g : Phase} {e : Op D} {s : State D} {k : Nat} {batch : List (String × Point D)}

theorem mem_batch (h : (c.batches self)[k]? = some batch) {x : String × Point D} (hx : x ∈ batch) : x ∈ c.points self :=
  Call.flatten_batches ▸ List.mem_flatten_of_mem (List.mem_of_getElem? h) hx

/-- Only an ingestion has something to send. -/
theorem account_of_batch (h : (c.batches self)[k]? = some batch) : ∃ t d, c.account self = some (t, d) := by
  cases c with
  | ingest ch t u => exact ⟨t, _, rfl⟩
  | delete | list => cases h

theorem Deed.filed (h : Deed self c g e) (hs : Filed self s.points) : Filed self (e.effect s).points := by
  cases h with
  | clear => exact fun id p hp => hs id p (delete_eq_some.mp hp).1
  | send hget =>
    intro id p hp
    rcases of_upsert hp with hp | hp
    · obtain ⟨t, d, hc⟩ := account_of_batch hget
      obtain ⟨ht, hd, doc, hdoc, hid⟩ := Call.mem_points (mem_batch hget hp) hc
      exact ⟨doc, _, hd.trans hdoc, by rw [ht, ← hdoc]; exact hid⟩
    · exact hs id p hp
  | put | drop => exact hs
  | idle hq _ => exact (Op.quiet_effect hq s).symm ▸ hs

/-- A request of a call on another document. -/
theorem Deed.points_other (huuid : Function.Injective self.store.uuid5) (h : Deed self c g e) {t d : String}
    (hc : c.account self ≠ some (t, d)) (hs : Filed self s.points) {id : String} {p : Point D} (hof : Of t d p.payload) :
    (e.effect s).points id = some p ↔ s.points id = some p := by
  cases h with
  | @clear _ t' d' hc' =>
    show Qdrant.delete _ s.points id = some p ↔ _
    rw [delete_eq_some, and_iff_left]
    rw [Bool.eq_false_iff]
    intro hacc
    obtain ⟨ht, hd⟩ := accepts_iff.mp hacc
    exact hc (by rw [hc', ← ht, ← hd, hof.1, hof.2])
  | @send _ k batch hget =>
    show upsert batch s.points id = some p ↔ _
    rw [upsert_eq]
    cases hw : written batch id with
    | none => rfl
    | some q =>
      obtain ⟨t', d', hc'⟩ := account_of_batch hget
      obtain ⟨ht, hd, doc, hdoc, hid⟩ := Call.mem_points (mem_batch hget (mem_of_written hw)) hc'
      constructor
      · intro hqp
        cases hqp
        exact absurd (by rw [hc', ← ht, ← hd, hof.1, hof.2]) hc
      · intro hp
        -- a point under this id would be one of the other document as well
        obtain ⟨doc', n, hdoc', hid'⟩ := hs id p hp
        rw [hdoc] at hid
        obtain ⟨ht', hd', -⟩ := pointName_inj (huuid (hid.symm.trans hid'))
        exact absurd (by rw [hc', ht', hof.1, hdoc, hd', ← hdoc', hof.2]) hc
  | put | drop => exact Iff.rfl
  | idle hq _ => rw [Op.quiet_effect hq]

/-- The first `k` batches of a call are there. -/
def Sent (self : IngestionService D) (c : Call) (k : Nat) (points : Collection String (Point D)) : Prop :=
  ∀ x ∈ ((c.batches self).take k).flatten, points x.1 = some x.2

/-- Writing points of a call keeps those of it that are there. -/
theorem upsert_keeps (huuid : Function.Injective self.store.uuid5) (hget : (c.batches self)[k]? = some batch)
    {points : Collection String (Point D)} {x : String × Point D} (hx : x ∈ c.points self) (hp : points x.1 = some x.2) :
    upsert batch points x.1 = some x.2 := by
  rw [upsert_eq]
  cases hw : written batch x.1 with
  | none => exact hp
  | some q => exact congrArg some (Call.points_unique huuid (mem_batch hget (mem_of_written hw)) hx)

theorem mem_of_sent {x : String × Point D} (hx : x ∈ ((c.batches self).take k).flatten) : x ∈ c.points self := by
  obtain ⟨b, hb, hxb⟩ := List.mem_flatten.mp hx
  exact Call.flatten_batches ▸ List.mem_flatten_of_mem (List.mem_of_mem_take hb) hxb

theorem Sent.upsert (huuid : Function.Injective self.store.uuid5) (hget : (c.batches self)[k]? = some batch) {n : Nat}
    {points : Collection String (Point D)} (h : Sent self c n points) : Sent self c n (upsert batch points) :=
  fun x hx => upsert_keeps huuid hget (mem_of_sent hx) (h x hx)

/-- The next batch. -/
theorem Sent.next (huuid : Function.Injective self.store.uuid5) (hget : (c.batches self)[k]? = some batch)
    {points : Collection String (Point D)} (h : Sent self c k points) : Sent self c (k + 1) (Qdrant.upsert batch points) := by
  intro x hx
  rw [List.take_add_one, hget, Option.toList_some, List.flatten_append, List.mem_append] at hx
  rcases hx with hx | hx
  · exact h.upsert huuid hget x hx
  · have hxb : x ∈ batch := by simpa using hx
    rw [upsert_eq]
    cases hw : written batch x.1 with
    | none => exact absurd hw (written_ne_none hxb)
    | some q => exact congrArg some (Call.points_unique huuid (mem_batch hget (mem_of_written hw)) (mem_batch hget hxb))

theorem Sent.all {points : Collection String (Point D)} (h : Sent self c (c.batches self).length points) {x : String × Point D}
    (hx : x ∈ c.points self) : points x.1 = some x.2 :=
  h x (by rw [List.take_length, Call.flatten_batches]; exact hx)

end Points

end NexusGate.Rag.Ingest
