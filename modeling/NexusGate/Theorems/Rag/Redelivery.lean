import NexusGate.Async.Isolation
import NexusGate.Theorems.Rag.Registry

/-! # Documents that are ingested again

The trace of a pool is cut at the newest delete request for a document. As long as only calls like the one that sent it have
written since, the chunks that are there are some of the chunks of that call, and all of them when it has come to its end. -/

namespace NexusGate.Rag.Ingest
open Async Async.System Redis Qdrant

variable {D : Type} {self : IngestionService D} {doc : String × String}

/-! ### Since the newest delete request -/

/-- A delete request. -/
def Op.clears : Op D → Bool
  | .qdrant (.delete _) => true
  | _ => false

/-- A request that writes chunks or the registry. -/
def Op.writes : Op D → Bool
  | .qdrant (.upsert _) | .multi _ => true
  | _ => false

/-- A request of this kind by a call on the document, whatever has become of it. -/
def Requests (kind : Op D → Bool) (doc : String × String) : (system self).Event → Prop
  | .did _ c e _ => kind e = true ∧ c.account self = some doc
  | _ => False

/-- A delete request for the document that was carried out. -/
def began (doc : String × String) : (system self).Event → Option (Nat × Call)
  | .did i c e (.ok _) => if Op.clears e = true ∧ c.account self = some doc then some (i, c) else none
  | _ => none

/-- A call and what has happened since its delete request, newest first. -/
structure Span (service : IngestionService D) where
  thread : Nat
  call : Call
  late : List (system service).Event

/-- The span since the newest delete request. -/
def newest (doc : String × String) : List (system self).Event → Option (Span self)
  | [] => none
  | v :: tr => match began doc v with
    | some (i, c) => some ⟨i, c, []⟩
    | none => (newest doc tr).map fun sp => { sp with late := v :: sp.late }

namespace Span
variable (sp : Span self)

/-- The span with one more event behind it. -/
def add (v : (system self).Event) : Span self := { sp with late := v :: sp.late }

/-- Only calls like that of the span have written since. -/
def Calm (doc : String × String) : Prop := ∀ v ∈ sp.late, Requests Op.writes doc v → Event.call v = sp.call

/-- No other delete request has come since, not even one that failed. -/
def Undisturbed (doc : String × String) : Prop := ∀ v ∈ sp.late, ¬Requests Op.clears doc v

/-- The call has come to its end. -/
def Done : Prop := ∃ r, Event.ended sp.thread sp.call (.ok r) ∈ sp.late

end Span

/-- The record of an ingestion is there. -/
def Call.Registered (self : IngestionService D) (redis : Store Blob) : Call → Prop
  | .ingest ch t u => ∃ r now, (self.withChunker ch).recordOf u now = some r ∧ Recorded redis t (self.documentId u.data).hex r
  | .delete _ _ | .list _ => True

/-- What is there when the call of the span is in a phase. -/
def Held (doc : String × String) (s : State D) (sp : Span self) (c : Call) : Phase → Prop
  | .sending k => c = sp.call ∧ (sp.Undisturbed doc → Sent self sp.call k s.points)
  | .recorded => c = sp.call ∧ (sp.Undisturbed doc → Sent self sp.call (sp.call.batches self).length s.points) ∧
    sp.call.Registered self s.redis
  | .preparing | .over => True

/-- The chunks are those of the call of the span, as many as it has sent. -/
structure Kept {service : IngestionService D} (doc : String × String) (s : State D) (sp : Span service)
    (Γ : Nat → Option (Call × Phase)) : Prop where
  points : ∀ id p, s.points id = some p → Of doc.1 doc.2 p.payload → (id, p) ∈ sp.call.points service
  board : ∀ c g, Γ sp.thread = some (c, g) → c.account service = some doc → Held doc s sp c g
  done : sp.Done → Held doc s sp sp.call .recorded

section Spans
variable {sp : Span self} {v : (system self).Event} {tr : List (system self).Event} {s s' : State D}
  {Γ Γ' : Nat → Option (Call × Phase)} {c : Call} {g : Phase}

theorem Span.Calm.of_add (h : (sp.add v).Calm doc) : sp.Calm doc ∧ (Requests Op.writes doc v → Event.call v = sp.call) :=
  ⟨fun x hx => h x (List.mem_cons_of_mem _ hx), h v List.mem_cons_self⟩

theorem Span.Undisturbed.of_add (h : (sp.add v).Undisturbed doc) : sp.Undisturbed doc ∧ ¬Requests Op.clears doc v :=
  ⟨fun x hx => h x (List.mem_cons_of_mem _ hx), h v List.mem_cons_self⟩

theorem newest_add (h : began doc v = none) : newest doc (v :: tr) = (newest doc tr).map fun sp => sp.add v := by
  rw [newest, h]
  rfl

theorem newest_began {i : Nat} (h : began doc v = some (i, c)) : newest doc (v :: tr) = some ⟨i, c, []⟩ := by
  rw [newest, h]

theorem began_account {i : Nat} (h : began doc v = some (i, c)) : c.account self = some doc := by
  unfold began at h
  split at h
  · split at h
    · rename_i hc
      cases h
      exact hc.2
    · cases h
  · cases h

theorem newest_account : ∀ {tr : List (system self).Event} {sp : Span self}, newest doc tr = some sp →
    sp.call.account self = some doc
  | v :: tr, sp, h => by
    cases hb : began doc v with
    | some x =>
      rw [newest_began hb] at h
      cases h
      exact began_account hb
    | none =>
      rw [newest_add hb] at h
      obtain ⟨sp', hsp', rfl⟩ := Option.map_eq_some_iff.mp h
      exact (newest_account hsp' : sp'.call.account self = some doc)

theorem Held.add (h : Held doc s sp c g) (hsent : ¬Requests Op.clears doc v → ∀ k, Sent self sp.call k s.points → Sent self sp.call k s'.points)
    (hreg : sp.call.Registered self s.redis → sp.call.Registered self s'.redis) : Held doc s' (sp.add v) c g := by
  cases g with
  | sending k => exact ⟨h.1, fun hu => hsent hu.of_add.2 k (h.2 hu.of_add.1)⟩
  | recorded => exact ⟨h.1, fun hu => hsent hu.of_add.2 _ (h.2.1 hu.of_add.1), hreg h.2.2⟩
  | _ => trivial

/-- An event that only adds chunks of the call, and takes none of them. -/
theorem Kept.add (h : Kept doc s sp Γ)
    (hpoints : ∀ id p, s'.points id = some p → Of doc.1 doc.2 p.payload → s.points id = some p ∨ (id, p) ∈ sp.call.points self)
    (hsent : ¬Requests Op.clears doc v → ∀ k, Sent self sp.call k s.points → Sent self sp.call k s'.points)
    (hreg : sp.call.Registered self s.redis → sp.call.Registered self s'.redis)
    (hboard : ∀ c g, Γ' sp.thread = some (c, g) → c.account self = some doc → Γ sp.thread = some (c, g) ∨ Held doc s' (sp.add v) c g)
    (hdone : ∀ r, v = .ended sp.thread sp.call (.ok r) → Held doc s' (sp.add v) sp.call .recorded) : Kept doc s' (sp.add v) Γ' where
  points id p hp hof := (hpoints id p hp hof).elim (fun hp => h.points id p hp hof) fun hmem => hmem
  board c g hg hc := (hboard c g hg hc).elim (fun hg => (h.board c g hg hc).add hsent hreg) fun hheld => hheld
  done := by
    rintro ⟨r, hr⟩
    rcases List.mem_cons.mp hr with hr | hr
    · exact hdone r hr.symm
    · exact (h.done ⟨r, hr⟩).add hsent hreg

end Spans

/-! ### What a request of a call does to the span -/

section Requests
variable {sp : Span self} {v : (system self).Event} {s s' : State D} {c : Call} {g : Phase} {e : Op D}

theorem recordOf_docId {svc : IngestionService D} {u : DocumentUpload} {now : Nat} {r : DocumentRecord} (h : svc.recordOf u now = some r) :
    r.docId = (svc.documentId u.data).hex := by
  unfold IngestionService.recordOf at h
  obtain ⟨out, -, rfl⟩ := Option.map_eq_some_iff.mp h
  rfl

/-- A request on another document leaves the registration of this one. -/
theorem Deed.registered_other (h : Deed self c g e) {c' : Call} (hne : c.account self ≠ c'.account self)
    (ht : Api.tenantPattern c.tenantId = true) (ht' : Api.tenantPattern c'.tenantId = true)
    (hr : c'.Registered self s.redis) : c'.Registered self (e.effect s).redis := by
  cases c' with
  | delete | list => trivial
  | ingest ch t u =>
    obtain ⟨r, now, hrecord, hstored⟩ := hr
    refine ⟨r, now, hrecord, ?_⟩
    unfold Recorded at hstored ⊢
    rw [← hstored]
    cases h with
    | clear | send => rfl
    | put hput =>
      refine execAll_frame (put_writes (fun hk => hne ?_) recordKey_ne_indexKey)
      obtain ⟨ht, hd⟩ := recordKey_inj ht' ht hk
      rw [recordOf_docId hput] at hd
      exact congrArg some (Prod.ext ht.symm hd.symm)
    | drop =>
      refine execAll_frame (drop_writes (fun hk => hne ?_) recordKey_ne_indexKey)
      obtain ⟨ht, hd⟩ := recordKey_inj ht' ht hk
      exact congrArg some (Prod.ext ht.symm hd.symm)
    | idle hq _ => rw [Op.quiet_effect hq]

theorem put_registered {ch : Chunker} {t : String} {u : DocumentUpload} {r : DocumentRecord} {now : Nat}
    (h : (self.withChunker ch).recordOf u now = some r) (ht : Api.tenantPattern t = true) (hs : Catalogue s.redis) :
    (Call.ingest ch t u).Registered self ((Op.multi (Registry.putCmds t r) : Op D).effect s).redis := by
  obtain ⟨z, hz⟩ := hs t ht
  obtain ⟨n, hout⟩ := put_eq s.now hz.index (r := r)
  have hid : r.docId = (self.documentId u.data).hex :=
    (recordOf_docId h : r.docId = ((self.withChunker ch).documentId u.data).hex)
  refine ⟨r, now, h, ?_⟩
  show (execAll s.now (Registry.putCmds t r) s.redis).2.lookup _ = _
  rw [hout]
  dsimp only
  rw [AList.lookup_insert_ne recordKey_ne_indexKey, ← hid]
  exact AList.lookup_insert _

end Requests

/-! ### The invariant -/

/-- The chunks and the registration of the document, as the trace tells them. -/
structure Told {service : IngestionService D} (doc : String × String) (s : State D) (tr : List (system service).Event)
    (Γ : Nat → Option (Call × Phase)) : Prop where
  before : newest doc tr = none → (∀ id p, s.points id = some p → ¬Of doc.1 doc.2 p.payload) ∧
    ∀ i c g, Γ i = some (c, g) → c.account service = some doc → g = .preparing ∨ g = .over
  admitted : ∀ sp, newest doc tr = some sp → Api.tenantPattern sp.call.tenantId = true
  span : ∀ sp, newest doc tr = some sp → sp.Calm doc → Kept doc s sp Γ

section Step
variable {s s' : State D} {tr : List (system self).Event} {Γ Γ' : Nat → Option (Call × Phase)} {v : (system self).Event}

/-- An event that is no delete request carried out. -/
theorem Told.add (h : Told doc s tr Γ) (hv : began doc v = none)
    (hnone : newest doc tr = none → (∀ id p, s'.points id = some p → ¬Of doc.1 doc.2 p.payload) ∧
      ∀ i c g, Γ' i = some (c, g) → c.account self = some doc → g = .preparing ∨ g = .over)
    (hspan : ∀ sp, newest doc tr = some sp → Kept doc s sp Γ → (Requests Op.writes doc v → Event.call v = sp.call) →
      Kept doc s' (sp.add v) Γ') : Told doc s' (v :: tr) Γ' where
  before hn := by
    rw [newest_add hv, Option.map_eq_none_iff] at hn
    exact hnone hn
  admitted sp hsp := by
    rw [newest_add hv] at hsp
    obtain ⟨sp', hsp', rfl⟩ := Option.map_eq_some_iff.mp hsp
    exact (h.admitted sp' hsp' : Api.tenantPattern sp'.call.tenantId = true)
  span sp hsp hcalm := by
    rw [newest_add hv] at hsp
    obtain ⟨sp', hsp', rfl⟩ := Option.map_eq_some_iff.mp hsp
    exact hspan sp' hsp' (h.span sp' hsp' hcalm.of_add.1) hcalm.of_add.2

/-- An event that changes neither store. -/
theorem Told.still (h : Told doc s tr Γ) (hv : began doc v = none)
    (hboard : ∀ i c g, Γ' i = some (c, g) → c.account self = some doc → Γ i = some (c, g) ∨ g = .preparing ∨ g = .over)
    (hdone : ∀ sp, newest doc tr = some sp → Kept doc s sp Γ → ∀ r, v = .ended sp.thread sp.call (.ok r) →
      Held doc s sp sp.call .recorded) : Told doc s (v :: tr) Γ' := by
  refine h.add hv (fun hn => ⟨(h.before hn).1, fun i c g hg hc => ?_⟩) fun sp hsp hkept _ => ?_
  · exact (hboard i c g hg hc).elim (fun hg => (h.before hn).2 i c g hg hc) id
  · refine hkept.add (fun _ _ hp _ => Or.inl hp) (fun _ _ h => h) id (fun c g hg hc => ?_) fun r hr => ?_
    · rcases hboard _ c g hg hc with hg | rfl | rfl
      · exact Or.inl hg
      · exact Or.inr trivial
      · exact Or.inr trivial
    · exact (hdone sp hsp hkept r hr).add (fun _ _ h => h) id

end Step

section Operation
variable {i k : Nat} {c : Call} {g : Phase} {e : Op D} {r : Except Exn e.Reply} {choice : Choice} {s s' : State D}
  {tr : List (system self).Event} {Γ : Nat → Option (Call × Phase)}

/-- The entry of a board on which one call has gone on. -/
theorem moved_entry {c' : Call} {g' : Phase} {j : Nat} {x : Phase} (h : Function.update Γ i (some (c, x)) j = some (c', g')) :
    (j = i ∧ c' = c ∧ g' = x) ∨ (j ≠ i ∧ Γ j = some (c', g')) := by
  rcases board_entry h with ⟨hj, hx⟩ | h
  · cases hx
    exact Or.inl ⟨hj, rfl, rfl⟩
  · exact Or.inr h

theorem began_other (hc : c.account self ≠ some doc) : began doc (.did i c e r : (system self).Event) = none := by
  unfold began
  split
  · rename_i heq
    cases heq
    exact if_neg fun h => hc h.2
  · rfl

theorem began_of_not_clears (he : Op.clears e = false) : began doc (.did i c e r : (system self).Event) = none := by
  unfold began
  split
  · rename_i heq
    cases heq
    exact if_neg fun h => Bool.false_ne_true (he.symm.trans h.1)
  · rfl

/-- An operation of a call on another document. -/
theorem Told.other (h : Told doc s tr Γ) (huuid : Function.Injective self.store.uuid5) (hfiled : Filed self s.points)
    (ht : Api.tenantPattern c.tenantId = true) (hdeed : Deed self c g e) (hexec : exec self e choice s = some (r, s'))
    (hc : c.account self ≠ some doc) {x : Phase} : Told doc s' (.did i c e r :: tr) (Function.update Γ i (some (c, x))) := by
  have hsame : ∀ id p, Of doc.1 doc.2 p.payload → (s'.points id = some p ↔ s.points id = some p) :=
    exec_keeps (Q := fun s' => ∀ id p, Of doc.1 doc.2 p.payload → (s'.points id = some p ↔ s.points id = some p)) hexec
      (fun id p hof => hdeed.points_other huuid hc hfiled hof) fun id p hof => Iff.rfl
  have hboard : ∀ j c' g', Function.update Γ i (some (c, x)) j = some (c', g') → c'.account self = some doc →
      Γ j = some (c', g') := by
    intro j c' g' hj hc'
    rcases moved_entry hj with ⟨-, rfl, -⟩ | ⟨-, hj⟩
    · exact absurd hc' hc
    · exact hj
  refine h.add (began_other hc) (fun hn => ?_) fun sp hsp hkept _ => ?_
  · exact ⟨fun id p hp hof => (h.before hn).1 id p ((hsame id p hof).mp hp) hof,
      fun j c' g' hj hc' => (h.before hn).2 j c' g' (hboard j c' g' hj hc') hc'⟩
  · have hacc := newest_account hsp
    refine hkept.add (fun id p hp hof => Or.inl ((hsame id p hof).mp hp)) (fun _ n hsent x hx => ?_) ?_
      (fun c' g' hj hc' => Or.inl (hboard _ c' g' hj hc')) nofun
    · obtain ⟨ht, hd, -⟩ := Call.mem_points (mem_of_sent hx) hacc
      exact (hsame _ _ ⟨ht, hd⟩).mpr (hsent x hx)
    · exact exec_keeps (Q := fun s' => sp.call.Registered self s.redis → sp.call.Registered self s'.redis) hexec
        (hdeed.registered_other (fun heq => hc (heq.trans hacc)) ht (h.admitted sp hsp)) id

/-- A request that writes, of a call on the document. -/
theorem Told.writing (h : Told doc s tr Γ) (hi : Γ i = some (c, .sending k)) (hc : c.account self = some doc)
    (hwrites : Op.writes e = true)
    (hspan : ∀ sp, newest doc tr = some sp → Kept doc s sp Γ → c = sp.call →
      Kept doc s' (sp.add (.did i c e r)) (Function.update Γ i (some (c, advance (.sending k) e r)))) :
    Told doc s' (.did i c e r :: tr) (Function.update Γ i (some (c, advance (.sending k) e r))) := by
  have hclears : Op.clears e = false := by
    cases e with
    | qdrant q => cases q <;> first | rfl | cases hwrites
    | _ => rfl
  refine h.add (began_of_not_clears hclears) (fun hn => ?_) fun sp hsp hkept hw => hspan sp hsp hkept (hw ⟨hwrites, hc⟩)
  rcases (h.before hn).2 i c _ hi hc with hg | hg <;> cases hg

theorem Told.send (h : Told doc s tr Γ) (huuid : Function.Injective self.store.uuid5) (hi : Γ i = some (c, .sending k))
    (hc : c.account self = some doc) {batch : List (String × Point D)} (hget : (c.batches self)[k]? = some batch)
    {r : Except Exn (Op.qdrant (.upsert batch) : Op D).Reply} (hexec : exec self (.qdrant (.upsert batch)) choice s = some (r, s')) :
    Told doc s' (.did i c (.qdrant (.upsert batch)) r :: tr)
      (Function.update Γ i (some (c, advance (.sending k) (.qdrant (.upsert batch)) r))) := by
  refine h.writing hi hc rfl fun sp _ hkept hcall => ?_
  subst hcall
  have hredis : s'.redis = s.redis := exec_keeps (Q := fun s' => s'.redis = s.redis) hexec rfl rfl
  have hsent : ∀ n, Sent self sp.call n s.points → Sent self sp.call n s'.points := fun n hn =>
    exec_keeps (Q := fun s' => Sent self sp.call n s'.points) hexec (hn.upsert huuid hget) hn
  refine hkept.add (fun id p hp _ => ?_) (fun _ => hsent) (fun hr => hredis ▸ hr) (fun c' g' hj hc' => ?_) nofun
  · exact exec_keeps (Q := fun s' => s'.points id = some p → s.points id = some p ∨ (id, p) ∈ sp.call.points self) hexec
      (fun hp => (of_upsert hp).symm.imp_right (mem_batch hget)) Or.inl hp
  · rcases moved_entry hj with ⟨hthread, rfl, rfl⟩ | ⟨-, hj⟩
    · right
      rcases exec_cases hexec with ⟨⟨_, rfl⟩, rfl⟩ | ⟨⟨x, rfl⟩, -⟩
      · have hheld : Held doc s sp sp.call (.sending k) := hkept.board _ _ (hthread ▸ hi) hc
        exact ⟨rfl, fun hu => (hheld.2 hu.of_add.1).next huuid hget⟩
      · rw [advance_error]
        trivial
    · exact Or.inl hj

/-- A transaction on the registry, which touches no chunk. -/
theorem Told.register (h : Told doc s tr Γ) (hi : Γ i = some (c, .sending k)) (hc : c.account self = some doc)
    {cs : List (Cmd Blob)} {r : Except Exn (Op.multi cs : Op D).Reply} (hexec : exec self (.multi cs) choice s = some (r, s'))
    (hlast : k = (c.batches self).length) (hreg : c.Registered self ((Op.multi cs : Op D).effect s).redis) :
    Told doc s' (.did i c (.multi cs) r :: tr) (Function.update Γ i (some (c, advance (.sending k) (.multi cs) r))) := by
  refine h.writing hi hc rfl fun sp _ hkept hcall => ?_
  subst hcall
  have hpoints : s'.points = s.points := exec_keeps (Q := fun s' => s'.points = s.points) hexec rfl rfl
  refine hkept.add (fun id p hp _ => Or.inl (hpoints ▸ hp)) (fun _ n hn => hpoints ▸ hn) (fun hr => ?_)
    (fun c' g' hj hc' => ?_) nofun
  · exact exec_keeps (Q := fun s' => sp.call.Registered self s'.redis) hexec hreg hr
  · rcases moved_entry hj with ⟨hthread, rfl, rfl⟩ | ⟨-, hj⟩
    · right
      rcases exec_cases hexec with ⟨⟨_, rfl⟩, rfl⟩ | ⟨⟨x, rfl⟩, -⟩
      · have hheld : Held doc s sp sp.call (.sending k) := hkept.board _ _ (hthread ▸ hi) hc
        exact ⟨rfl, fun hu => hlast ▸ hheld.2 hu.of_add.1, hreg⟩
      · rw [advance_error]
        trivial
    · exact Or.inl hj

theorem Told.clear (h : Told doc s tr Γ) (hi : Γ i = some (c, .preparing)) (ht : Api.tenantPattern c.tenantId = true)
    (hc : c.account self = some doc) {e : Op D} (he : e = .qdrant (.delete (tenantFilter doc.1 (some doc.2)))) {r : Except Exn e.Reply}
    (hexec : exec self e choice s = some (r, s')) :
    Told doc s' (.did i c e r :: tr) (Function.update Γ i (some (c, advance .preparing e r))) := by
  have hclears : Op.clears e = true := by
    rw [he]
    rfl
  rcases exec_cases hexec with ⟨⟨a, rfl⟩, rfl⟩ | ⟨⟨x, rfl⟩, hs⟩
  · have hb : newest doc (.did i c e (.ok a) :: tr) = some (⟨i, c, []⟩ : Span self) := newest_began (if_pos ⟨hclears, hc⟩)
    refine ⟨fun hn => (nomatch hb.symm.trans hn), fun sp hsp => ?_, fun sp hsp _ => ?_⟩
    · obtain rfl := Option.some.inj (hb.symm.trans hsp)
      exact ht
    · obtain rfl := Option.some.inj (hb.symm.trans hsp)
      subst he
      refine ⟨fun id p hp hof => ?_, fun c' g' hj _ => ?_, fun ⟨r, hr⟩ => nomatch hr⟩
      · have hgone := (delete_eq_some.mp hp).2
        rw [accepts_iff.mpr hof] at hgone
        cases hgone
      · rcases moved_entry hj with ⟨-, rfl, rfl⟩ | ⟨hne, -⟩
        · exact ⟨rfl, fun _ _ hx => nomatch hx⟩
        · exact absurd rfl hne
  · subst he
    have hredis : s'.redis = s.redis := by rcases hs with rfl | rfl <;> rfl
    have hpoints : ∀ id p, s'.points id = some p → s.points id = some p := by
      rcases hs with rfl | rfl
      · exact fun id p hp => (delete_eq_some.mp hp).1
      · exact fun id p hp => hp
    refine h.add rfl (fun hn => ?_) fun sp _ hkept _ => ?_
    · refine ⟨fun id p hp => (h.before hn).1 id p (hpoints id p hp), fun j c' g' hj hc' => ?_⟩
      rcases moved_entry hj with ⟨-, rfl, rfl⟩ | ⟨-, hj⟩
      · exact Or.inr rfl
      · exact (h.before hn).2 j c' g' hj hc'
    · refine hkept.add (fun id p hp _ => Or.inl (hpoints id p hp)) (fun hu => absurd ⟨rfl, hc⟩ hu) (fun hr => hredis ▸ hr)
        (fun c' g' hj hc' => ?_) nofun
      rcases moved_entry hj with ⟨-, rfl, rfl⟩ | ⟨-, hj⟩
      · exact Or.inr trivial
      · exact Or.inl hj

theorem Told.idle (h : Told doc s tr Γ) (hi : Γ i = some (c, g)) (hq : e.quiet = true) (hexec : exec self e choice s = some (r, s')) :
    Told doc s' (.did i c e r :: tr) (Function.update Γ i (some (c, advance g e r))) := by
  have hs : s' = s := exec_keeps (Q := fun s' => s' = s) hexec (Op.quiet_effect hq s) rfl
  subst hs
  have hclears : Op.clears e = false := by cases e <;> first | rfl | cases hq
  refine h.still (began_of_not_clears hclears) (fun j c' g' hj _ => ?_) fun _ _ _ => nofun
  rcases moved_entry hj with ⟨rfl, rfl, rfl⟩ | ⟨-, hj⟩
  · rcases advance_quiet hq with hg | hg
    · exact Or.inl (hg.symm ▸ hi)
    · exact Or.inr (Or.inr hg)
  · exact Or.inl hj

/-- Every operation of a call. -/
theorem Told.op (h : Told doc s tr Γ) (huuid : Function.Injective self.store.uuid5) (hfiled : Filed self s.points)
    (hcatalogue : Catalogue s.redis) (ht : Api.tenantPattern c.tenantId = true) (hi : Γ i = some (c, g)) (hdeed : Deed self c g e)
    (hexec : exec self e choice s = some (r, s')) :
    Told doc s' (.did i c e r :: tr) (Function.update Γ i (some (c, advance g e r))) := by
  by_cases hc : c.account self = some doc
  · cases hdeed with
    | @clear _ t d hc' =>
      obtain rfl : (t, d) = doc := Option.some.inj (hc'.symm.trans hc)
      exact h.clear hi ht hc rfl hexec
    | send hget => exact h.send huuid hi hc hget hexec
    | put hrecord => exact h.register hi hc hexec rfl (put_registered hrecord ht hcatalogue)
    | drop => exact h.register hi hc hexec rfl trivial
    | idle hq _ => exact h.idle hi hq hexec
  · exact h.other huuid hfiled ht hdeed hexec hc

end Operation

theorem Held.clock {s : State D} {sp : Span self} {c : Call} {g : Phase} (h : Held doc s sp c g) {now : Nat} :
    Held doc { s with now } sp c g := by
  cases g <;> exact h

theorem told_rules (huuid : Function.Injective self.store.uuid5) {P : Pool self → (system self).Act → Prop}
    (hP : ∀ w a, P w a → Sane w) :
    Rules (watch self) P fun s tr (Γ : Nat → Option (Call × Phase)) => Told doc s tr Γ where
  start := by
    intro w Γ i c _ hJ _ _ _
    refine hJ.still rfl (fun j c' g' hj _ => ?_) fun _ _ _ => nofun
    rcases moved_entry hj with ⟨-, -, rfl⟩ | ⟨-, hj⟩
    · exact Or.inr (Or.inl rfl)
    · exact Or.inl hj
  op := by
    intro w Γ i choice c g e r s _ hJ hi hthread hmay hexec hp
    obtain ⟨k, hk⟩ := hthread
    have hsane := hP _ _ hp
    exact ⟨advance g e r, exec_next hexec,
      hJ.op huuid hsane.filed hsane.catalogue (hsane.admitted i _ hk) hi (deed_of_may hmay) hexec⟩
  ended := by
    intro s tr Γ i c g r hJ hi hlast
    refine hJ.still rfl (fun j c' g' hj _ => Or.inl (clear_entry hj).2) fun sp hsp hkept r' hr => ?_
    cases hr
    have hacc := newest_account hsp
    cases hcall : sp.call with
    | ingest ch t u =>
      rw [hcall] at hlast hi hacc
      obtain ⟨-, rfl⟩ : _ ∧ g = .recorded := hlast
      exact hkept.board _ _ hi hacc
    | delete t d =>
      refine ⟨hcall.symm, fun _ x hx => ?_, ?_⟩ <;> rw [hcall] at *
      · cases hx
      · trivial
    | list t =>
      rw [hcall] at hacc
      cases hacc
  kill := by
    intro w Γ i c g _ hJ _ _ _
    exact hJ.still rfl (fun j c' g' hj _ => Or.inl (clear_entry hj).2) fun _ _ _ => nofun
  env := by
    intro w Γ b s _ hJ henv _
    cases henv
    exact ⟨hJ.before, hJ.admitted, fun sp hsp hcalm =>
      have hkept := hJ.span sp hsp hcalm
      ⟨hkept.points, fun c g hg hc => (hkept.board c g hg hc).clock, fun hd => (hkept.done hd).clock⟩⟩

theorem told (huuid : Function.Injective self.store.uuid5) {P : Pool self → (system self).Act → Prop} {w : Pool self}
    (h : World.Reaches P (emptyPool self) w) :
    ∃ Γ, (watch self).Shows w Γ ∧ Told doc w.state w.trace Γ := by
  exact (told_rules huuid fun _ _ h => h.2).reaches watch_sound (h.strengthen fun _ h => sane h)
    ⟨_, shows_empty, ⟨fun _ => ⟨nofun, nofun⟩, nofun, nofun⟩⟩

/-! ### Ingesting again -/

section Again
variable {ch : Chunker} {t : String} {u : DocumentUpload} {w : Pool self}

theorem began_of_not_requests {v : (system self).Event} (h : ¬Requests Op.clears doc v) : began doc v = none := by
  unfold began
  split
  · exact if_neg h
  · rfl

theorem newest_split {i : Nat} {c : Call} {e : Op D} {a : e.Reply} (he : Op.clears e = true) (hc : c.account self = some doc) :
    ∀ {late early : List (system self).Event}, (∀ x ∈ late, ¬Requests Op.clears doc x) →
      newest doc (late ++ .did i c e (.ok a) :: early) = some ⟨i, c, late⟩
  | [], _, _ => newest_began (if_pos ⟨he, hc⟩)
  | x :: late, early, h => by
    rw [List.cons_append, newest_add (began_of_not_requests (h x List.mem_cons_self)),
      newest_split he hc fun y hy => h y (List.mem_cons_of_mem _ hy)]
    rfl

/-- What one undisturbed ingestion leaves: the points of the upload and no others of its document, the record, and one entry
    in the listing. -/
structure Ingested (service : IngestionService D) (ch : Chunker) (t : String) (u : DocumentUpload) (s : State D) : Prop where
  points : ∀ id p, (s.points id = some p ∧ Of t (service.documentId u.data).hex p.payload) ↔
    (id, p) ∈ (service.withChunker ch).points t u
  record : ∃ r now, (service.withChunker ch).recordOf u now = some r ∧
    ((Registry.get t (service.documentId u.data).hex : Program D _).run (answering service) s).1 = .ok (some r)
  entry : ∃ records, ((Registry.list t : Program D _).run (answering service) s).1 = .ok records ∧
    (records.map DocumentRecord.docId).count (service.documentId u.data).hex = 1

/-- The last of the calls for an upload that began has come to its end, and only calls for the same upload have written since
    then: whatever the calls before have left, and however they were interleaved, the document is what one call makes of it. -/
theorem reingestion (huuid : Function.Injective self.store.uuid5) (h : World.Reaches World.anyStep (emptyPool self) w) {i : Nat}
    {late early : List (system self).Event} {e : Op D} {a : e.Reply} {r : Result}
    (htrace : w.trace = late ++ .did i (.ingest ch t u) e (.ok a) :: early) (hdelete : Op.clears e = true)
    (hlast : ∀ v ∈ late, ¬Requests Op.clears (t, (self.documentId u.data).hex) v)
    (hothers : ∀ v ∈ late, Requests Op.writes (t, (self.documentId u.data).hex) v → Event.call v = .ingest ch t u)
    (hdone : .ended i (.ingest ch t u) (.ok r) ∈ late) : Ingested self ch t u w.state := by
  obtain ⟨Γ, -, htold⟩ : ∃ Γ, (watch self).Shows w Γ ∧ Told (t, (self.documentId u.data).hex) w.state w.trace Γ := told huuid h
  have hnewest : newest (t, (self.documentId u.data).hex) w.trace = some (⟨i, .ingest ch t u, late⟩ : Span self) := by
    rw [htrace]
    exact newest_split hdelete rfl hlast
  have hkept := htold.span _ hnewest hothers
  obtain ⟨-, hsent, r, now, hrecord, hstored⟩ := hkept.done ⟨r, hdone⟩
  have hcatalogue := (sane h).catalogue
  have ht : Api.tenantPattern t = true := htold.admitted _ hnewest
  have hget : ((Registry.get t (self.documentId u.data).hex : Program D _).run (answering self) w.state).1 = .ok (some r) :=
    get_recorded hcatalogue ht hstored
  refine ⟨fun id p => ⟨fun ⟨hp, hof⟩ => hkept.points id p hp hof, fun hx => ⟨(hsent hlast).all hx, ?_⟩⟩, ⟨r, now, hrecord, hget⟩, ?_⟩
  · obtain ⟨ht, hd, -⟩ := mem_points hx
    exact ⟨ht, hd⟩
  · obtain ⟨records, hlists⟩ := hcatalogue.lists ht
    have hid : r.docId = (self.documentId u.data).hex :=
      (recordOf_docId hrecord : r.docId = ((self.withChunker ch).documentId u.data).hex)
    refine ⟨records, hlists.listed, List.count_eq_one_of_mem hlists.once ?_⟩
    exact List.mem_map.mpr ⟨r, (hlists.fetched r).mpr (hid ▸ hget), hid⟩

end Again

/-! ### Two calls for one upload, after one for a longer version -/

namespace Twice

open Sample

/-- A call of which only the chunks are left, and then two, the later of which overtakes the other. -/
def acts : List (system service).Act :=
  [.start 0 (.ingest narrow "acme" upload), .op 0 .done, .op 0 .done, .op 0 .done, .op 0 .done, .kill 0,
    .start 1 (.ingest wide "acme" upload), .op 1 .done, .op 1 .done, .op 1 .done,
    .start 2 (.ingest wide "acme" upload), .op 2 .done, .op 2 .done, .op 2 .done,
    .op 1 .done, .op 2 .done, .op 2 (.time 7), .op 2 .done, .op 1 (.time 8), .op 1 .done]

theorem comes : ((emptyPool service).run acts).isSome = true := by decide

def after : Pool service := ((emptyPool service).run acts).get comes

theorem reached : World.Reaches World.anyStep (emptyPool service) after :=
  World.reaches_of_run (fun _ _ _ => trivial) (Option.some_get comes).symm

theorem reingestion_twice : Ingested service wide "acme" upload after.state := by
  refine @reingestion Unit service wide "acme" upload after Function.injective_id reached 2 [_, _, _, _, _, _, _, _]
    _ _ _ _ rfl rfl ?_ ?_ (.tail _ (.tail _ (.tail _ (.head _))))
  · simp [Requests, Op.clears]
  · intro v hv _
    simp only [List.mem_cons, List.not_mem_nil, or_false] at hv
    rcases hv with rfl | rfl | rfl | rfl | rfl | rfl | rfl | rfl <;> rfl

end Twice

end NexusGate.Rag.Ingest
