import NexusGate.Async.Lives
import NexusGate.Rag.IngestionService
import NexusGate.Theorems.Rag.Tenants

/-! # What the calls on the documents do

A monitor for every call: how far an ingestion has come with its requests to the two stores, and a deletion with its. The
chunks of an upload are numbered, so no two of its points have one id. -/

namespace NexusGate.Rag.Ingest
open Async Async.System Redis Qdrant

variable {D : Type}

/-! ### The points of an upload -/

namespace IngestionService
variable (self : IngestionService D)

/-- What an upload is parsed to: sections, title and chunks. -/
def prepared (u : DocumentUpload) : Except Exn (List Section × String × List Chunk) := do
  let sections ← (self.parse u).mapError .unparsable
  let title ← self.title u sections
  return (sections, title, self.chunker.chunk sections title)

/-- The points of an upload, those of an undisturbed ingestion. -/
def points (t : String) (u : DocumentUpload) : List (String × Point D) :=
  match self.prepared u with
  | .ok (_, title, chunks) =>
    (chunks.zip (chunks.map fun c => self.embed c.text)).map fun x =>
      self.store.point t (self.documentId u.data).hex title x.1 x.2
  | .error _ => []

/-- The points of a document in the batches they are sent in. -/
def batches (t : String) (u : DocumentUpload) : List (List (String × Point D)) := slices 256 (self.points t u)

/-- The record of an upload that was stored at this time. -/
def recordOf (u : DocumentUpload) (now : Nat) : Option DocumentRecord :=
  (self.prepared u).toOption.map fun (sections, title, chunks) => self.record u title sections chunks now

end IngestionService

section Points
variable {self : IngestionService D} {t : String} {u : DocumentUpload}

theorem points_of_prepared {sections : List Section} {title : String} {chunks : List Chunk}
    (h : self.prepared u = .ok (sections, title, chunks)) : self.points t u =
      (chunks.zip (chunks.map fun c => self.embed c.text)).map fun x =>
        self.store.point t (self.documentId u.data).hex title x.1 x.2 := by
  rw [IngestionService.points, h]

theorem batches_flatten : (self.batches t u).flatten = self.points t u := flatten_slices (by decide)

/-- A point of the upload, under the id of a chunk. -/
theorem mem_points {x : String × Point D} (h : x ∈ self.points t u) : x.2.payload.tenantId = t ∧
    x.2.payload.docId = (self.documentId u.data).hex ∧
    x.1 = self.store.pointId t (self.documentId u.data).hex x.2.payload.chunkIndex := by
  unfold IngestionService.points at h
  split at h
  · obtain ⟨y, -, rfl⟩ := List.mem_map.mp h
    exact ⟨rfl, rfl, rfl⟩
  · cases h

/-- The chunks are numbered, and so are the points. -/
theorem points_numbered : ((self.points t u).map fun x => x.2.payload.chunkIndex) = List.range (self.points t u).length := by
  unfold IngestionService.points
  cases hp : self.prepared u with
  | error x => rfl
  | ok out =>
    obtain ⟨sections, title, chunks⟩ := out
    have hnumbered : chunks.map Chunk.index = List.range chunks.length := by
      unfold IngestionService.prepared at hp
      cases hsections : (self.parse u).mapError Exn.unparsable with
      | error x =>
        rw [hsections] at hp
        cases hp
      | ok sections' =>
        rw [hsections] at hp
        cases htitle : self.title u sections' with
        | error x =>
          simp only [bind, Except.bind, htitle] at hp
          cases hp
        | ok title' =>
          simp only [bind, Except.bind, htitle] at hp
          cases hp
          exact self.chunker.numbered sections title
    dsimp only
    rw [List.map_map, List.length_map, List.length_zip, List.length_map, Nat.min_self, ← hnumbered]
    have hcomp : ((fun x : String × Point D => x.2.payload.chunkIndex) ∘ fun x : Chunk × D =>
        self.store.point t (self.documentId u.data).hex title x.1 x.2) = Chunk.index ∘ Prod.fst := rfl
    rw [hcomp, ← List.map_map, List.map_fst_zip (by rw [List.length_map])]

/-- No two points of an upload have one id. -/
theorem points_unique (huuid : Function.Injective self.store.uuid5) {id : String} {p q : Point D}
    (hp : (id, p) ∈ self.points t u) (hq : (id, q) ∈ self.points t u) : p = q := by
  have hindex : p.payload.chunkIndex = q.payload.chunkIndex :=
    (pointName_inj (huuid ((mem_points hp).2.2.symm.trans (mem_points hq).2.2))).2.2
  have hnodup : ((self.points t u).map fun x => x.2.payload.chunkIndex).Nodup := points_numbered ▸ List.nodup_range
  exact congrArg Prod.snd (List.inj_on_of_nodup_map hnodup hp hq hindex)

end Points

/-! ### Monitors -/

/-- How far a call has come: before its request to delete points, behind it and behind `k` batches, behind its last
    request, or about to raise. -/
inductive Phase
  | preparing
  | sending (k : Nat)
  | recorded
  | over
  deriving DecidableEq

/-- The phase after an operation and its outcome. -/
def advance : Phase → (e : Op D) → Except Exn e.Reply → Phase
  | .preparing, .qdrant (.delete _), .ok _ => .sending 0
  | .sending k, .qdrant (.upsert _), .ok _ => .sending (k + 1)
  | .sending _, .multi _, .ok _ => .recorded
  | _, _, .error _ => .over
  | g, _, .ok _ => g

section Watching
variable (self : IngestionService D)

/-- The operations of an ingestion in a phase. -/
inductive Ingests (t : String) (u : DocumentUpload) : Phase → Op D → Prop
  | parse : Ingests t u .preparing (.parse u)
  | embed {texts} : Ingests t u .preparing (.embed texts)
  | begin : Ingests t u .preparing (.qdrant (.delete (tenantFilter t (some (self.documentId u.data).hex))))
  | send {k batch} (h : (self.batches t u)[k]? = some batch) : Ingests t u (.sending k) (.qdrant (.upsert batch))
  | clock : Ingests t u (.sending (self.batches t u).length) .clock
  | put {r now} (h : self.recordOf u now = some r) :
    Ingests t u (.sending (self.batches t u).length) (.multi (Registry.putCmds t r))

/-- Those of a deletion. -/
inductive Deletes (t d : String) : Phase → Op D → Prop
  | get : Deletes t d .preparing (.redis (.get (recordKey t d)))
  | clear : Deletes t d .preparing (.qdrant (.delete (tenantFilter t (some d))))
  | drop : Deletes t d (.sending 0) (.multi (Registry.deleteCmds t d))

/-- Those of a listing. -/
inductive Reads : Op D → Prop
  | read {c : Cmd Blob} (h : c.writes = []) : Reads (.redis c)

/-- What parsing and embedding answer. -/
def Honest : (e : Op D) → Except Exn e.Reply → Prop
  | .parse u, .ok sections => self.parse u = .ok sections
  | .embed texts, .ok vectors => vectors = texts.map self.embed
  | _, _ => True

/-- What a result says of the phase that the call ends in. -/
def Last : Call → Except Exn Result → Phase → Prop
  | .ingest _ _ _, .ok r, g => (∃ record, r = .ingested record) ∧ g = .recorded
  | .ingest _ _ _, .error _, g => g = .preparing ∨ g = .over
  | .delete _ _, .ok r, _ => ∃ found, r = .deleted found
  | .list _, .ok r, _ => ∃ records, r = .listed records
  | .delete _ _, .error _, _ | .list _, .error _, _ => True

/-- A call that may do what `may` allows, as long as the stores answer honestly. -/
def follow (may : Phase → Op D → Prop) : Monitor (Op D) Op.Reply Exn Phase where
  may := may
  next g e r g' := Honest self e r ∧ g' = advance g e r

/-- What each call may do. -/
def monitor : Call → Monitor (Op D) Op.Reply Exn Phase
  | .ingest ch t u => follow self (Ingests (self.withChunker ch) t u)
  | .delete t d => follow self (Deletes t d)
  | .list _ => follow self fun _ => Reads

/-- Every call of the service is watched. -/
def watch : Watch (system self) where
  G := Phase
  monitor := monitor self
  first _ := .preparing
  last := Last

end Watching

section Follow
variable {self : IngestionService D} {t : String} {u : DocumentUpload} {may : Phase → Op D → Prop} {g : Phase}

theorem call_follows {e : Op D} {Q : Except Exn e.Reply → Phase → Prop} (hmay : may g e)
    (hQ : ∀ r, Honest self e r → Q r (advance g e r)) : Follows (follow self may) Q (.call e) g :=
  Follows.call_iff.mpr ⟨hmay, fun r _ ⟨hr, hg⟩ => hg ▸ hQ r hr⟩

/-- The call has no request to the stores behind it, or one that failed. -/
def Stopped (g : Phase) : Prop := g = .preparing ∨ g = .over

/-- A part of a call that ends well only as `P` says, and raises only as `X` says. -/
def Good {α : Type} (X : Phase → Prop) (P : α → Phase → Prop) : Except Exn α → Phase → Prop
  | .ok a, g => P a g
  | .error _, g => X g

theorem Good.bind {α β : Type} {X : Phase → Prop} {P : α → Phase → Prop} {Q : β → Phase → Prop} {p : Program D α} {f : α → Program D β}
    (hp : Follows (follow self may) (Good X P) p g) (hf : ∀ a g', P a g' → Follows (follow self may) (Good X Q) (f a) g') :
    Follows (follow self may) (Good X Q) (p.bind f) g :=
  Follows.bind hp hf fun _ _ h => h

theorem advance_error {e : Op D} {g : Phase} {x : Exn} : advance g e (.error x) = .over := by
  unfold advance
  split <;> trivial

theorem good_call {e : Op D} {X : Phase → Prop} {P : e.Reply → Phase → Prop} (hX : X .over) (hmay : may g e)
    (hP : ∀ a, Honest self e (.ok a) → P a (advance g e (.ok a))) : Follows (follow self may) (Good X P) (.call e) g :=
  call_follows hmay fun r hr => match r with
    | .ok a => hP a hr
    | .error _ => advance_error ▸ hX

theorem ofStore_call {e : Rag.Op D} : ofStore (.call e) = (.call (Op.qdrant e) : Program D e.Reply) := by
  simp only [Prog.call, ofStore]
  congr 1
  funext r
  rcases r with (_ | _ | _ | _ | _ | _ | _) | _ <;> rfl

theorem ofStore_bind {α β : Type} {p : Rag.Program D α} {f : α → Rag.Program D β} :
    ofStore (p.bind f) = (ofStore p).bind fun a => ofStore (f a) := by
  induction p with
  | ret a => rfl
  | throw x => rfl
  | op e k ih => simp only [Prog.op_bind, ofStore, Prog.bind_assoc, ih]

/-- The batches that are left, one after the other. -/
theorem upsertAll_follows : ∀ {bs : List (List (String × Point D))} {k : Nat}, (self.batches t u).drop k = bs →
    k + bs.length = (self.batches t u).length →
    Follows (follow self (Ingests self t u)) (Good Stopped fun _ g => g = .sending (self.batches t u).length)
      (ofStore (QdrantChunkStore.upsertAll bs)) (.sending k)
  | [], k, _, hlen => congrArg Phase.sending hlen
  | b :: bs, k, hdrop, hlen => by
    have hget : (self.batches t u)[k]? = some b := by rw [← List.head?_drop, hdrop, List.head?_cons]
    have hrest : (self.batches t u).drop (k + 1) = bs := by rw [← List.tail_drop, hdrop, List.tail_cons]
    rw [QdrantChunkStore.upsertAll, Prog.bind_eq, ofStore_bind, ofStore_call]
    refine Good.bind (P := fun _ g => g = .sending (k + 1)) (good_call (Or.inr rfl) (.send hget) fun _ _ => rfl) ?_
    rintro _ _ rfl
    exact upsertAll_follows hrest (by rw [List.length_cons] at hlen; omega)

theorem replaceDocument_follows {sections : List Section} {title : String} {chunks : List Chunk}
    (h : self.prepared u = .ok (sections, title, chunks)) :
    Follows (follow self (Ingests self t u)) (Good Stopped fun _ g => g = .sending (self.batches t u).length)
      (ofStore (self.store.replaceDocument t (self.documentId u.data).hex title chunks ((chunks.map Chunk.text).map self.embed)))
      .preparing := by
  rw [QdrantChunkStore.replaceDocument, Prog.bind_eq, ofStore_bind, QdrantChunkStore.deleteDocument, ofStore_call]
  refine Good.bind (P := fun _ g => g = .sending 0) (good_call (Or.inr rfl) .begin fun _ _ => rfl) ?_
  rintro _ _ rfl
  rw [List.map_map, QdrantChunkStore.zipStrict, List.length_map, if_neg (Nat.lt_irrefl _), if_neg (Nat.lt_irrefl _)]
  have hbatches : slices 256 ((chunks.zip (chunks.map (self.embed ∘ Chunk.text))).map fun x =>
      self.store.point t (self.documentId u.data).hex title x.1 x.2) = self.batches t u := by
    rw [IngestionService.batches, points_of_prepared h]
    rfl
  exact upsertAll_follows hbatches.symm (by rw [hbatches, Nat.zero_add])

theorem prepared_eq {sections : List Section} {title : String} (hparse : self.parse u = .ok sections)
    (htitle : self.title u sections = .ok title) :
    self.prepared u = .ok (sections, title, self.chunker.chunk sections title) := by
  unfold IngestionService.prepared
  rw [hparse]
  simp only [Except.mapError, bind, Except.bind, htitle, pure, Except.pure]

theorem ingest_follows : Follows (follow self (Ingests self t u)) (Good Stopped fun _ g => g = .recorded) (self.ingest t u) .preparing := by
  unfold IngestionService.ingest
  split
  · exact Or.inl rfl
  refine Good.bind (P := fun sections g => self.parse u = .ok sections ∧ g = .preparing)
    (good_call (Or.inr rfl) .parse fun sections h => ⟨h, rfl⟩) ?_
  rintro sections _ ⟨hparse, rfl⟩
  cases htitle : self.title u sections with
  | error x => exact Or.inl rfl
  | ok title =>
    have hprepared := prepared_eq hparse htitle
    refine Good.bind (P := fun vectors g => vectors = ((self.chunker.chunk sections title).map Chunk.text).map self.embed ∧
      g = .preparing) (good_call (Or.inr rfl) .embed fun vectors h => ⟨h, rfl⟩) ?_
    rintro _ _ ⟨rfl, rfl⟩
    refine Good.bind (replaceDocument_follows hprepared) ?_
    rintro _ _ rfl
    refine Good.bind (P := fun _ g => g = .sending (self.batches t u).length) (good_call (Or.inr rfl) .clock fun _ _ => rfl) ?_
    rintro now _ rfl
    have hrecord : self.recordOf u now = some (self.record u title sections (self.chunker.chunk sections title) now) := by
      rw [IngestionService.recordOf, hprepared]
      rfl
    have hput : Follows (follow self (Ingests self t u)) (Good Stopped fun _ g => g = .recorded)
        (Registry.put t (self.record u title sections (self.chunker.chunk sections title) now)) (.sending (self.batches t u).length) :=
      Good.bind (P := fun _ g => g = .recorded) (good_call (Or.inr rfl) (.put hrecord) fun _ _ => rfl) fun _ _ h => h
    exact Good.bind hput fun _ _ h => h

theorem delete_follows {d : String} : Follows (follow self (Deletes t d)) (Good (fun _ => True) fun _ _ => True) (self.delete t d) .preparing := by
  refine Good.bind (P := fun _ g => g = .preparing) ?_ ?_
  · refine Good.bind (P := fun _ g => g = .preparing) (good_call trivial .get fun _ _ => rfl) ?_
    rintro reply _ rfl
    split <;> trivial
  · rintro found _ rfl
    cases found with
    | none => trivial
    | some record =>
      show Follows _ _ ((ofStore (QdrantChunkStore.deleteDocument t d)).bind fun _ => Registry.delete t d) _
      rw [QdrantChunkStore.deleteDocument, ofStore_call]
      refine Good.bind (P := fun _ g => g = .sending 0) (good_call trivial .clear fun _ _ => rfl) ?_
      rintro _ _ rfl
      refine Good.bind (P := fun _ _ => True) (good_call trivial .drop fun _ _ => trivial) ?_
      intro replies _ _
      split <;> trivial

theorem list_follows : Follows (follow self fun _ => Reads) (Good (fun _ => True) fun _ _ => True) (Registry.list t) .preparing := by
  refine Good.bind (P := fun _ _ => True) (good_call trivial (.read rfl) fun _ _ => trivial) ?_
  intro reply g _
  split
  · trivial
  · refine Good.bind (P := fun _ _ => True) (good_call trivial (.read rfl) fun _ _ => trivial) ?_
    intro raws g _
    split
    · cases Registry.records _ <;> trivial
    · trivial
  · trivial

theorem watch_sound : (watch self).Sound := by
  intro c
  have last {α : Type} {M : Monitor (Op D) Op.Reply Exn Phase} {p : Program D α} {f : α → Result} {X : Phase → Prop}
      {P : α → Phase → Prop} (hp : Follows M (Good X P) p .preparing) (hP : ∀ a g, P a g → Last c (.ok (f a)) g)
      (hX : ∀ x g, X g → Last c (.error x) g) : Follows M (Last c) (f <$> p) .preparing := by
    refine Follows.map (hp.mono fun r g h => ?_)
    cases r with
    | ok a => exact hP a g h
    | error x => exact hX x g h
  cases c with
  | ingest ch t u =>
    refine last (P := fun _ g => g = .recorded) ?_ (fun record g h => ⟨⟨record, rfl⟩, h⟩) fun _ _ h => h
    exact ingest_follows
  | delete t d => exact last delete_follows (fun found g _ => ⟨found, rfl⟩) fun _ _ _ => trivial
  | list t => exact last list_follows (fun records g _ => ⟨records, rfl⟩) fun _ _ _ => trivial

end Follow

end NexusGate.Rag.Ingest
