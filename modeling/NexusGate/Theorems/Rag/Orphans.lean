import NexusGate.Async.Lives
import NexusGate.Theorems.Rag.Redelivery

/-! # Chunks that nobody can remove

A document is removed by way of its record, so chunks without a record stay. There are none as long as an ingestion that has
sent its delete request comes to its end, no two different calls write to a document in turns, and no delete request is lost
meanwhile. -/

namespace NexusGate.Rag.Ingest
open Async Async.System Redis Qdrant

variable {D : Type} {self : IngestionService D} {doc : String × String}

/-- The call is an ingestion. -/
def Call.isIngest : Call → Bool
  | .ingest _ _ _ => true
  | .delete _ _ | .list _ => false

/-! ### Orderly steps -/

/-- An ingestion of the document that runs and has sent its delete request. -/
def Underway (doc : String × String) (w : Pool self) (i : Nat) : Prop :=
  ∃ th, w.threads i = some th ∧ th.call.isIngest = true ∧ th.call.account self = some doc ∧
    ∃ v ∈ life i w.trace, (began doc v).isSome = true

/-- The one whose delete request is the newest. -/
def Owner (doc : String × String) (w : Pool self) (i : Nat) : Prop :=
  Underway doc w i ∧ ∃ sp, newest doc w.trace = some sp ∧ sp.thread = i

/-- The ingestion with the newest delete request neither fails nor dies; a call writes chunks or the registry only when the
    newest delete request is its own or that of an equal call; and a delete request fails neither for an ingestion nor while one is
    underway. -/
def Orderly (doc : String × String) (w : Pool self) : (system self).Act → Prop
  | .kill i => ¬Owner doc w i
  | .op i choice => ∀ c e k, w.threads i = some ⟨c, .op e k⟩ → c.account self = some doc →
    (Op.writes e = true → ∃ sp, newest doc w.trace = some sp ∧ sp.call = c) ∧
    ∀ carriedOut, choice = .failed carriedOut →
      ¬Owner doc w i ∧ (Op.clears e = true → c.isIngest = false ∧ ∀ j, ¬Underway doc w j)
  | .start _ _ | .env _ => True

/-- The call, an ingestion of the document, has come to its end, and no deletion has sent its delete request since. -/
def Stands (doc : String × String) (c : Call) (tr : List (system self).Event) : Prop :=
  ∃ later i r earlier, tr = later ++ .ended i c (.ok r) :: earlier ∧ c.isIngest = true ∧ c.account self = some doc ∧
    ∀ v ∈ later, Requests Op.clears doc v → (Event.call v).isIngest = true

/-- An ingestion of the document stands. -/
def Standing (doc : String × String) (tr : List (system self).Event) : Prop := ∃ c, Stands doc c tr

/-- What should hold when no call on the document is running: chunks have a record by which they can be removed, and a record
    that an ingestion has left and no deletion has touched is that of such an ingestion, and has all its chunks. -/
structure Covered {service : IngestionService D} (doc : String × String) (w : Pool service) : Prop where
  registered : ∀ id p, w.state.points id = some p → Of doc.1 doc.2 p.payload →
    ∃ r, ((Registry.get doc.1 doc.2 : Program D _).run (answering service) w.state).1 = .ok (some r)
  complete : Standing doc w.trace → ∀ r,
    ((Registry.get doc.1 doc.2 : Program D _).run (answering service) w.state).1 = .ok (some r) →
    ∃ ch u now, Stands doc (.ingest ch doc.1 u) w.trace ∧ (service.documentId u.data).hex = doc.2 ∧
      (service.withChunker ch).recordOf u now = some r ∧
        ∀ x ∈ (service.withChunker ch).points doc.1 u, w.state.points x.1 = some x.2

/-! ### The invariant -/

/-- What the trace says about the calls on the document, all steps having been orderly. -/
structure Ordered {service : IngestionService D} (doc : String × String) (tr : List (system service).Event)
    (Γ : Nat → Option (Call × Phase)) : Prop where
  calm : ∀ sp, newest doc tr = some sp → sp.Calm doc
  owner : ∀ sp, newest doc tr = some sp → sp.call.isIngest = true →
    (∃ g, Γ sp.thread = some (sp.call, g) ∧ ¬Stopped g) ∨ sp.Done
  standing : Standing doc tr → ∃ sp, newest doc tr = some sp ∧ sp.call.isIngest = true ∧ sp.Undisturbed doc
  recorded : ∀ j c, Γ j = some (c, .recorded) → c.isIngest = true → c.account service = some doc →
    ∃ sp, newest doc tr = some sp ∧ sp.call = c
  undisturbed : ∀ j c g, Γ j = some (c, g) → ¬Stopped g → c.isIngest = true → c.account service = some doc →
    ∀ sp, newest doc tr = some sp → sp.Undisturbed doc
  begun : ∀ j c g, Γ j = some (c, g) → ¬Stopped g → c.account service = some doc → ∃ v ∈ life j tr, (began doc v).isSome = true

section Standing
variable {v : (system self).Event} {tr : List (system self).Event}

/-- The event is the end of an ingestion of the document. -/
def Ends (doc : String × String) (v : (system self).Event) : Prop :=
  ∃ i c r, v = .ended i c (.ok r) ∧ c.isIngest = true ∧ c.account self = some doc

theorem standing_add (h : Standing doc (v :: tr)) :
    Ends doc v ∨ (Standing doc tr ∧ (Requests Op.clears doc v → (Event.call v).isIngest = true)) := by
  obtain ⟨c, later, i, r, earlier, htr, hingest, hacc, hlater⟩ := h
  cases later with
  | nil => exact Or.inl ⟨i, c, r, (List.cons.inj htr).1, hingest, hacc⟩
  | cons x later =>
    obtain ⟨rfl, htail⟩ := List.cons.inj htr
    exact Or.inr ⟨⟨c, later, i, r, earlier, htail, hingest, hacc, fun y hy => hlater y (List.mem_cons_of_mem _ hy)⟩,
      hlater v List.mem_cons_self⟩

theorem newest_late : ∀ {tr : List (system self).Event} {sp : Span self}, newest doc tr = some sp →
    ∃ early, tr = sp.late ++ early
  | v :: tr, sp, h => by
    cases hb : began doc v with
    | some x =>
      rw [newest_began hb] at h
      cases h
      exact ⟨v :: tr, rfl⟩
    | none =>
      rw [newest_add hb] at h
      obtain ⟨sp', hsp', rfl⟩ := Option.map_eq_some_iff.mp h
      obtain ⟨early, rfl⟩ := newest_late hsp'
      exact ⟨early, rfl⟩

/-- The ingestion with the newest delete request, when it has come to its end. -/
theorem stands_of_done {sp : Span self} (h : newest doc tr = some sp) (hingest : sp.call.isIngest = true) (hdone : sp.Done)
    (hu : sp.Undisturbed doc) : Stands doc sp.call tr := by
  obtain ⟨early, htr⟩ := newest_late h
  obtain ⟨r, hr⟩ := hdone
  obtain ⟨later, earlier, hlate⟩ := List.append_of_mem hr
  refine ⟨later, sp.thread, r, earlier ++ early, ?_, hingest, newest_account h, fun v hv hclears => ?_⟩
  · rw [htr, hlate, List.append_assoc]
    rfl
  · refine absurd hclears (hu v ?_)
    rw [hlate]
    exact List.mem_append_left _ hv

end Standing

/-- An event that is no delete request carried out. -/
theorem Ordered.add {tr : List (system self).Event} {Γ Γ' : Nat → Option (Call × Phase)} {v : (system self).Event}
    (h : Ordered doc tr Γ) (hv : began doc v = none)
    (hwrites : Requests Op.writes doc v → ∃ sp, newest doc tr = some sp ∧ Event.call v = sp.call)
    (hclears : Requests Op.clears doc v → (Event.call v).isIngest = false ∧
      ∀ j c g, Γ' j = some (c, g) → ¬Stopped g → c.isIngest = true → c.account self ≠ some doc)
    (hboard : ∀ j c g, Γ' j = some (c, g) → ¬Stopped g → c.account self = some doc →
      (∃ g₀, Γ j = some (c, g₀) ∧ ¬Stopped g₀) ∧ ∀ x ∈ life j tr, x ∈ life j (v :: tr))
    (hrecorded : ∀ j c, Γ' j = some (c, .recorded) → c.isIngest = true → c.account self = some doc →
      Γ j = some (c, .recorded) ∨ ∃ sp, newest doc tr = some sp ∧ sp.call = c)
    (howner : ∀ sp, newest doc tr = some sp → sp.call.isIngest = true → ∀ g, Γ sp.thread = some (sp.call, g) → ¬Stopped g →
      (∃ g', Γ' sp.thread = some (sp.call, g') ∧ ¬Stopped g') ∨ ∃ r, v = .ended sp.thread sp.call (.ok r))
    (hends : Ends doc v → ∃ sp, newest doc tr = some sp ∧ sp.call.isIngest = true ∧ sp.Undisturbed doc) :
    Ordered doc (v :: tr) Γ' where
  calm sp hsp := by
    rw [newest_add hv] at hsp
    obtain ⟨sp', hsp', rfl⟩ := Option.map_eq_some_iff.mp hsp
    intro x hx hw
    rcases List.mem_cons.mp hx with rfl | hx
    · obtain ⟨sp'', hsp'', hcall⟩ := hwrites hw
      cases hsp'.symm.trans hsp''
      exact hcall
    · exact h.calm sp' hsp' x hx hw
  owner sp hsp hingest := by
    rw [newest_add hv] at hsp
    obtain ⟨sp', hsp', rfl⟩ := Option.map_eq_some_iff.mp hsp
    rcases h.owner sp' hsp' hingest with ⟨g, hg, hactive⟩ | ⟨r, hr⟩
    · rcases howner sp' hsp' hingest g hg hactive with hg' | ⟨r, rfl⟩
      · exact Or.inl hg'
      · exact Or.inr ⟨r, List.mem_cons_self⟩
    · exact Or.inr ⟨r, List.mem_cons_of_mem _ hr⟩
  standing hstanding := by
    have add : ∀ sp : Span self, sp.Undisturbed doc → ¬Requests Op.clears doc v → (sp.add v).Undisturbed doc :=
      fun sp hu hnot x hx => (List.mem_cons.mp hx).elim (fun heq => heq ▸ hnot) (hu x)
    rw [newest_add hv]
    rcases standing_add hstanding with hend | ⟨hstanding, hlast⟩
    · obtain ⟨sp, hsp, hingest, hu⟩ := hends hend
      obtain ⟨i, c, r, rfl, -⟩ := hend
      exact ⟨sp.add _, by rw [hsp]; rfl, hingest, add sp hu id⟩
    · obtain ⟨sp, hsp, hingest, hu⟩ := h.standing hstanding
      refine ⟨sp.add v, by rw [hsp]; rfl, hingest, add sp hu fun hc => ?_⟩
      exact Bool.false_ne_true ((hclears hc).1.symm.trans (hlast hc))
  recorded j c hj hingest hc := by
    have hsome : ∃ sp, newest doc tr = some sp ∧ sp.call = c := by
      rcases hrecorded j c hj hingest hc with hj | hsome
      · exact h.recorded j c hj hingest hc
      · exact hsome
    obtain ⟨sp, hsp, hcall⟩ := hsome
    exact ⟨sp.add v, by rw [newest_add hv, hsp]; rfl, hcall⟩
  undisturbed j c g hj hactive hingest hc sp hsp := by
    rw [newest_add hv] at hsp
    obtain ⟨sp', hsp', rfl⟩ := Option.map_eq_some_iff.mp hsp
    intro x hx
    rcases List.mem_cons.mp hx with rfl | hx
    · exact fun hcl => (hclears hcl).2 j c g hj hactive hingest hc
    · obtain ⟨⟨g₀, hg₀, hactive₀⟩, -⟩ := hboard j c g hj hactive hc
      exact h.undisturbed j c g₀ hg₀ hactive₀ hingest hc sp' hsp' x hx
  begun j c g hj hactive hc := by
    obtain ⟨⟨g₀, hg₀, hactive₀⟩, hlife⟩ := hboard j c g hj hactive hc
    obtain ⟨x, hx, hb⟩ := h.begun j c g₀ hg₀ hactive₀ hc
    exact ⟨x, hlife x hx, hb⟩

theorem active_sending {k : Nat} : ¬Stopped (.sending k) := by rintro (h | h) <;> cases h

theorem active_recorded : ¬Stopped .recorded := by rintro (h | h) <;> cases h

section Rules
variable {w : Pool self} {Γ : Nat → Option (Call × Phase)} {i j k : Nat} {c : Call} {g : Phase} {e : Op D} {choice : Choice}
  {s' : State D} {r : Except Exn e.Reply}

theorem Ordered.underway (h : Ordered doc w.trace Γ) (hshows : (watch self).Shows w Γ) (hj : Γ j = some (c, g)) (hactive : ¬Stopped g)
    (hingest : c.isIngest = true) (hc : c.account self = some doc) : Underway doc w j := by
  obtain ⟨p, hp⟩ := hshows.thread hj
  exact ⟨_, hp, hingest, hc, h.begun j c g hj hactive hc⟩

/-- Behind its last request an ingestion does not wait. -/
theorem not_recorded (hshows : (watch self).Shows w Γ) (hj : Γ j = some (c, .recorded)) (hingest : c.isIngest = true) : False := by
  obtain ⟨e, he⟩ := hshows.may hj
  cases c with
  | ingest ch t u => cases he
  | delete | list => cases hingest

theorem quiet_writes (h : e.quiet = true) : Op.writes e = false := by
  cases e with
  | qdrant | multi => cases h
  | parse | embed | redis | clock => rfl

theorem quiet_clears (h : e.quiet = true) : Op.clears e = false := by
  cases e with
  | qdrant | multi => cases h
  | parse | embed | redis | clock => rfl

theorem writes_clears (h : Op.writes e = true) : Op.clears e = false := by
  cases e with
  | qdrant q => cases q <;> first | rfl | cases h
  | parse | embed | redis | multi | clock => rfl

/-- Only the surroundings make a request to the stores fail. -/
theorem failed_of_error (hdeed : Deed self c g e) (ht : Api.tenantPattern c.tenantId = true) {s : State D}
    (hs : Catalogue s.redis) (hq : e.quiet = false) {x : Exn} (hexec : exec self e choice s = some (.error x, s')) :
    ∃ carriedOut, choice = .failed carriedOut := by
  have answered {cs : List (Cmd Blob)} (h : ((execAll s.now cs s.redis).1.any failed) = false)
      {y : Exn} (hexec : exec self (.multi cs) .done s = some (.error y, s')) : False := by
    have hanswer : Op.answer self (.multi cs) s = .error y := (Prod.mk.inj (Option.some.inj hexec)).1
    simp [Op.answer, h] at hanswer
  cases choice with
  | failed carriedOut => exact ⟨carriedOut, rfl⟩
  | time =>
    cases hdeed with
    | clear | send | put | drop => cases hexec
    | idle hq' _ => cases hq.symm.trans hq'
  | done =>
    cases hdeed with
    | clear | send => cases hexec
    | put hrecord => exact (answered ((Deed.put hrecord).answers ht hs) hexec).elim
    | drop => exact (answered ((Deed.drop : Deed self _ _ _).answers ht hs) hexec).elim
    | idle hq' _ => cases hq.symm.trans hq'

/-- A request that writes, of a call on the document. -/
theorem Ordered.writing (h : Ordered doc w.trace Γ) (hshows : (watch self).Shows w Γ) (hsane : Sane w)
    (hi : Γ i = some (c, .sending k)) (ht : Api.tenantPattern c.tenantId = true) (hc : c.account self = some doc)
    (hdeed : Deed self c (.sending k) e) (hwrites : Op.writes e = true)
    (hexec : exec self e choice w.state = some (r, s')) (howner : ∃ sp, newest doc w.trace = some sp ∧ sp.call = c)
    (hfails : ∀ carriedOut, choice = .failed carriedOut → ¬Owner doc w i) :
    Ordered doc (.did i c e r :: w.trace) (Function.update Γ i (some (c, advance (.sending k) e r))) := by
  have hclears := writes_clears hwrites
  obtain ⟨sp, hsp, hcall⟩ := howner
  refine h.add (began_of_not_clears hclears) (fun _ => ⟨sp, hsp, hcall.symm⟩) (fun hcl => ?_) (fun j c' g' hj hactive hc' => ?_)
    (fun j c' hj hingest hc' => ?_) (fun sp' hsp' hingest g' hg' hactive => ?_) nofun
  · cases hclears.symm.trans hcl.1
  · refine ⟨?_, fun x hx => mem_life_add nofun hx⟩
    rcases moved_entry hj with ⟨rfl, rfl, -⟩ | ⟨-, hj⟩
    · exact ⟨_, hi, active_sending⟩
    · exact ⟨g', hj, hactive⟩
  · rcases moved_entry hj with ⟨rfl, rfl, -⟩ | ⟨-, hj⟩
    · exact Or.inr ⟨sp, hsp, hcall⟩
    · exact Or.inl hj
  · cases hsp.symm.trans hsp'
    by_cases hthread : sp.thread = i
    · left
      rw [hthread, Function.update_self, hcall]
      refine ⟨_, rfl, ?_⟩
      cases r with
      | ok a =>
        cases hdeed with
        | send => exact active_sending
        | put | drop => exact active_recorded
        | idle hq _ => cases (quiet_writes hq).symm.trans hwrites
      | error x =>
        have hq : e.quiet = false := by
          cases hquiet : e.quiet with
          | false => rfl
          | true => cases (quiet_writes hquiet).symm.trans hwrites
        obtain ⟨carriedOut, hchoice⟩ := failed_of_error hdeed ht hsane.catalogue hq hexec
        have hunderway := h.underway hshows hi active_sending (hcall ▸ hingest) hc
        exact absurd ⟨hunderway, sp, hsp, hthread⟩ (hfails carriedOut hchoice)
    · left
      rw [Function.update_of_ne hthread]
      exact ⟨g', hg', hactive⟩

/-- An operation of a call on another document. -/
theorem Ordered.other (h : Ordered doc w.trace Γ) (hi : Γ i = some (c, g)) (hc : c.account self ≠ some doc) {x : Phase} :
    Ordered doc (.did i c e r :: w.trace) (Function.update Γ i (some (c, x))) := by
  refine h.add (began_other hc) (fun hw => absurd hw.2 hc) (fun hcl => absurd hcl.2 hc) (fun j c' g' hj hactive hc' => ?_)
    (fun j c' hj _ hc' => ?_) (fun sp hsp _ g' hg' hactive => ?_) nofun
  · refine ⟨?_, fun x hx => mem_life_add nofun hx⟩
    rcases moved_entry hj with ⟨-, rfl, -⟩ | ⟨-, hj⟩
    · exact absurd hc' hc
    · exact ⟨g', hj, hactive⟩
  · rcases moved_entry hj with ⟨-, rfl, -⟩ | ⟨-, hj⟩
    · exact absurd hc' hc
    · exact Or.inl hj
  · have hthread : sp.thread ≠ i := by
      intro hthread
      rw [hthread, hi] at hg'
      cases hg'
      exact hc (newest_account hsp)
    left
    rw [Function.update_of_ne hthread]
    exact ⟨g', hg', hactive⟩

/-- A request that neither store notices. -/
theorem Ordered.idle (h : Ordered doc w.trace Γ) (hshows : (watch self).Shows w Γ) (hi : Γ i = some (c, g))
    (hc : c.account self = some doc) (hq : e.quiet = true) (hg : g = .preparing ∨ e = .clock ∨ c.account self = none)
    (hexec : exec self e choice w.state = some (r, s')) (hfails : ∀ carriedOut, choice = .failed carriedOut → ¬Owner doc w i) :
    Ordered doc (.did i c e r :: w.trace) (Function.update Γ i (some (c, advance g e r))) := by
  have hactive_of {g' : Phase} (hg' : g' = advance g e r) (hactive : ¬Stopped g') : g' = g := by
    rcases advance_quiet hq (g := g) (r := r) with heq | hover
    · exact hg'.trans heq
    · exact absurd (Or.inr (hg'.trans hover)) hactive
  refine h.add (began_of_not_clears (quiet_clears hq)) (fun hw => ?_) (fun hcl => ?_) (fun j c' g' hj hactive hc' => ?_)
    (fun j c' hj _ _ => ?_) (fun sp hsp hingest g' hg' hactive => ?_) nofun
  · cases (quiet_writes hq).symm.trans hw.1
  · cases (quiet_clears hq).symm.trans hcl.1
  · refine ⟨?_, fun x hx => mem_life_add nofun hx⟩
    rcases moved_entry hj with ⟨rfl, rfl, hg'⟩ | ⟨-, hj⟩
    · exact ⟨g, hi, hactive_of hg' hactive ▸ hactive⟩
    · exact ⟨g', hj, hactive⟩
  · rcases moved_entry hj with ⟨rfl, rfl, hg'⟩ | ⟨-, hj⟩
    · exact Or.inl (hactive_of hg' active_recorded ▸ hi)
    · exact Or.inl hj
  · left
    by_cases hthread : sp.thread = i
    · rw [hthread, hi] at hg'
      obtain ⟨hcall, rfl⟩ := Prod.mk.inj (Option.some.inj hg')
      rw [hthread, Function.update_self, hcall]
      refine ⟨_, rfl, ?_⟩
      rcases hg with rfl | rfl | hnone
      · exact absurd (Or.inl rfl) hactive
      · cases r with
        | ok now => cases g <;> exact hactive
        | error x =>
          -- the clock is always right, unless the request for it fails
          obtain ⟨carriedOut, hchoice⟩ : ∃ carriedOut, choice = .failed carriedOut := by
            cases choice with
            | failed carriedOut => exact ⟨carriedOut, rfl⟩
            | done | time => cases hexec
          exact absurd ⟨h.underway hshows hi hactive (hcall ▸ hingest) hc, sp, hsp, hthread⟩ (hfails carriedOut hchoice)
      · cases hc.symm.trans hnone
    · rw [Function.update_of_ne hthread]
      exact ⟨g', hg', hactive⟩

/-- A delete request for the document. -/
theorem Ordered.clear (h : Ordered doc w.trace Γ) (hshows : (watch self).Shows w Γ) (hi : Γ i = some (c, .preparing))
    (hc : c.account self = some doc) {f : Filter} {r : Except Exn (Op.qdrant (.delete f) : Op D).Reply}
    (hexec : exec self (.qdrant (.delete f)) choice w.state = some (r, s'))
    (hfails : ∀ carriedOut, choice = .failed carriedOut → c.isIngest = false ∧ ∀ j, ¬Underway doc w j) :
    Ordered doc (.did i c (.qdrant (.delete f)) r :: w.trace)
      (Function.update Γ i (some (c, advance .preparing (.qdrant (.delete f)) r))) := by
  cases r with
  | ok a =>
    have hbegan : began doc (.did i c (.qdrant (.delete f)) (.ok a) : (system self).Event) = some (i, c) := if_pos ⟨rfl, hc⟩
    have hb : newest doc (.did i c (.qdrant (.delete f)) (.ok a) :: w.trace) = some (⟨i, c, []⟩ : Span self) := newest_began hbegan
    refine ⟨fun sp hsp => ?_, fun sp hsp _ => ?_, fun hstanding => ?_, fun j c' hj hingest hc' => ?_,
      fun j c' g' _ _ _ _ sp hsp => ?_, fun j c' g' hj hactive hc' => ?_⟩
    · obtain rfl := Option.some.inj (hb.symm.trans hsp)
      exact fun _ hx => nomatch hx
    · obtain rfl := Option.some.inj (hb.symm.trans hsp)
      exact Or.inl ⟨.sending 0, Function.update_self .., active_sending⟩
    · refine ⟨_, hb, ?_, fun _ hx => nomatch hx⟩
      rcases standing_add hstanding with hend | ⟨-, hlast⟩
      · obtain ⟨_, _, _, hend, -⟩ := hend
        cases hend
      · exact hlast ⟨rfl, hc⟩
    · rcases moved_entry hj with ⟨-, -, hg⟩ | ⟨-, hj⟩
      · cases hg
      · exact (not_recorded hshows hj hingest).elim
    · obtain rfl := Option.some.inj (hb.symm.trans hsp)
      exact fun _ hx => nomatch hx
    · rcases moved_entry hj with ⟨rfl, -, -⟩ | ⟨-, hj⟩
      · exact ⟨_, life_did ▸ List.mem_cons_self, congrArg Option.isSome hbegan⟩
      · obtain ⟨x, hx, hb⟩ := h.begun j c' g' hj hactive hc'
        exact ⟨x, mem_life_add nofun hx, hb⟩
  | error x =>
    obtain ⟨hingest, hnone⟩ : c.isIngest = false ∧ ∀ j, ¬Underway doc w j := by
      cases choice with
      | failed carriedOut => exact hfails carriedOut rfl
      | done | time => cases hexec
    have hboard : ∀ j c' g', Function.update Γ i (some (c, .over)) j = some (c', g') → ¬Stopped g' → Γ j = some (c', g') := by
      intro j c' g' hj hactive
      rcases moved_entry hj with ⟨-, -, rfl⟩ | ⟨-, hj⟩
      · exact absurd (Or.inr rfl) hactive
      · exact hj
    refine h.add rfl (fun hw => nomatch hw.1) (fun _ => ⟨hingest, fun j c' g' hj hactive hingest' hc' => ?_⟩)
      (fun j c' g' hj hactive _ => ⟨⟨g', hboard j c' g' hj hactive, hactive⟩, fun x hx => mem_life_add nofun hx⟩)
      (fun j c' hj _ _ => Or.inl (hboard j c' _ hj active_recorded)) (fun sp hsp hingest' g' hg' hactive => ?_) nofun
    · exact hnone j (h.underway hshows (hboard j c' g' hj hactive) hactive hingest' hc')
    · exact absurd (h.underway hshows hg' hactive hingest' (newest_account hsp)) (hnone _)

theorem ordered_rules {P : Pool self → (system self).Act → Prop} (hP : ∀ w a, P w a → Orderly doc w a ∧ Sane w) :
    Rules (watch self) P fun _ tr (Γ : Nat → Option (Call × Phase)) => Ordered doc tr Γ where
  start := by
    intro w Γ i c _ hJ hi _ _
    refine hJ.add rfl nofun nofun (fun j c' g' hj hactive _ => ?_) (fun j c' hj _ _ => ?_) (fun sp _ _ g' hg' hactive => ?_) nofun
    · rcases moved_entry hj with ⟨-, -, rfl⟩ | ⟨hne, hj⟩
      · exact absurd (Or.inl rfl) hactive
      · exact ⟨⟨g', hj, hactive⟩, fun x hx => mem_life_add (fun _ heq => by cases heq; exact hne rfl) hx⟩
    · rcases moved_entry hj with ⟨-, -, hg⟩ | ⟨-, hj⟩
      · cases hg
      · exact Or.inl hj
    · left
      rw [Function.update_of_ne fun hthread => nomatch (hthread ▸ hg').symm.trans hi]
      exact ⟨g', hg', hactive⟩
  op := by
    intro w Γ i choice c g e r s hshows hJ hi hthread hmay hexec hp
    obtain ⟨k, hk⟩ := hthread
    obtain ⟨horderly, hsane⟩ := hP _ _ hp
    have hdeed := deed_of_may hmay
    refine ⟨advance g e r, exec_next hexec, ?_⟩
    by_cases hc : c.account self = some doc
    · obtain ⟨howner, hfails⟩ := horderly c e k hk hc
      have ht := hsane.admitted i _ hk
      cases hdeed with
      | clear => exact hJ.clear hshows hi hc hexec fun carriedOut hchoice => (hfails carriedOut hchoice).2 rfl
      | send hget =>
        exact hJ.writing hshows hsane hi ht hc (.send hget) rfl hexec (howner rfl) fun carriedOut hchoice => (hfails carriedOut hchoice).1
      | put hrecord =>
        exact hJ.writing hshows hsane hi ht hc (.put hrecord) rfl hexec (howner rfl) fun carriedOut hchoice => (hfails carriedOut hchoice).1
      | drop => exact hJ.writing hshows hsane hi ht hc .drop rfl hexec (howner rfl) fun carriedOut hchoice => (hfails carriedOut hchoice).1
      | idle hq hg => exact hJ.idle hshows hi hc hq hg hexec fun carriedOut hchoice => (hfails carriedOut hchoice).1
    · exact hJ.other hi hc
  ended := by
    intro s tr Γ i c g r hJ hi hlast
    refine hJ.add rfl nofun nofun (fun j c' g' hj hactive _ => ?_) (fun j c' hj _ _ => Or.inl (clear_entry hj).2)
      (fun sp hsp hingest g' hg' hactive => ?_) ?_
    · exact ⟨⟨g', (clear_entry hj).2, hactive⟩, fun x hx => mem_life_add nofun hx⟩
    · by_cases hthread : sp.thread = i
      · rw [hthread, hi] at hg'
        obtain ⟨rfl, rfl⟩ := Prod.mk.inj (Option.some.inj hg')
        cases r with
        | ok r => exact Or.inr ⟨r, by rw [hthread]⟩
        | error x =>
          cases hcall : sp.call with
          | ingest ch t u =>
            rw [hcall] at hlast
            exact absurd hlast hactive
          | delete | list => rw [hcall] at hingest; cases hingest
      · left
        rw [Function.update_of_ne hthread]
        exact ⟨g', hg', hactive⟩
    · rintro ⟨i', c', r', heq, hingest, hc⟩
      cases heq
      cases c with
      | delete | list => cases hingest
      | ingest ch t u =>
        obtain ⟨-, rfl⟩ : _ ∧ g = .recorded := hlast
        obtain ⟨sp, hsp, hcall⟩ := hJ.recorded i _ hi rfl hc
        exact ⟨sp, hsp, hcall ▸ rfl, hJ.undisturbed i _ _ hi active_recorded rfl hc sp hsp⟩
  kill := by
    intro w Γ i c g hshows hJ hi _ hp
    have hnot := (hP _ _ hp).1
    refine hJ.add rfl nofun nofun (fun j c' g' hj hactive _ => ?_) (fun j c' hj _ _ => Or.inl (clear_entry hj).2)
      (fun sp hsp hingest g' hg' hactive => ?_) nofun
    · exact ⟨⟨g', (clear_entry hj).2, hactive⟩, fun x hx => mem_life_add nofun hx⟩
    · left
      have hthread : sp.thread ≠ i := fun hthread =>
        hnot ⟨hthread ▸ hJ.underway hshows hg' hactive hingest (newest_account hsp), sp, hsp, hthread⟩
      rw [Function.update_of_ne hthread]
      exact ⟨g', hg', hactive⟩
  env := fun _ hJ _ _ => hJ

end Rules

/-! ### Runs -/

theorem orderly_covered {w : Pool self} (huuid : Function.Injective self.store.uuid5) (h : World.Reaches (Orderly doc) (emptyPool self) w)
    (hidle : ∀ i th, w.threads i = some th → th.call.account self ≠ some doc) : Covered doc w := by
  obtain ⟨_, -, htold⟩ : ∃ Γ, (watch self).Shows w Γ ∧ Told doc w.state w.trace Γ := told huuid h
  obtain ⟨Γ, hshows, hordered⟩ := (ordered_rules fun _ _ h => h).reaches watch_sound (h.strengthen fun _ h => sane h)
    ⟨_, shows_empty, nofun, nofun, fun ⟨_, later, _, _, _, htr, _⟩ => (by cases later <;> cases htr), nofun, nofun, nofun⟩
  have hcatalogue := (sane h).catalogue
  -- the ingestion with the newest delete request has come to its end
  have done : ∀ sp, newest doc w.trace = some sp → sp.call.isIngest = true → sp.Done := by
    intro sp hsp hingest
    refine (hordered.owner sp hsp hingest).resolve_left fun ⟨g, hg, _⟩ => ?_
    obtain ⟨p, hp⟩ := hshows.thread hg
    exact hidle _ _ hp (newest_account hsp)
  have held : ∀ sp, newest doc w.trace = some sp → sp.call.isIngest = true →
      Held doc w.state sp sp.call .recorded ∧ Api.tenantPattern sp.call.tenantId = true := fun sp hsp hingest =>
    ⟨(htold.span sp hsp (hordered.calm sp hsp)).done (done sp hsp hingest), htold.admitted sp hsp⟩
  constructor
  · intro id p hp hof
    cases hsp : newest doc w.trace with
    | none => exact absurd hof ((htold.before hsp).1 id p hp)
    | some sp =>
      have hmem := (htold.span sp hsp (hordered.calm sp hsp)).points id p hp hof
      have hacc := newest_account hsp
      obtain ⟨i, c, late⟩ := sp
      cases c with
      | delete | list => cases hmem
      | ingest ch t u =>
        cases hacc
        obtain ⟨⟨-, -, r, now, -, hstored⟩, ht⟩ := held _ hsp rfl
        exact ⟨r, get_recorded hcatalogue ht hstored⟩
  · intro hstanding r hr
    obtain ⟨sp, hsp, hingest, hu⟩ := hordered.standing hstanding
    have hacc := newest_account hsp
    have hstands := stands_of_done hsp hingest (done sp hsp hingest) hu
    obtain ⟨i, c, late⟩ := sp
    cases c with
    | delete | list => cases hingest
    | ingest ch t u =>
      cases hacc
      obtain ⟨⟨-, hsent, r', now, hrecord, hstored⟩, ht⟩ := held _ hsp rfl
      cases (get_recorded hcatalogue ht hstored).symm.trans hr
      exact ⟨ch, u, now, hstands, rfl, hrecord, fun x hx => (hsent hu).all hx⟩

/-! ### A process that dies between the chunks and the record -/

theorem orderly_of {w : Pool self} {i : Nat} {choice : Choice} {c : Call} {e : Op D}
    {k : Except Exn e.Reply → Program D Result} (hthread : w.threads i = some ⟨c, .op e k⟩)
    (hchoice : ∀ carriedOut, choice ≠ .failed carriedOut)
    (hwrites : Op.writes e = true → ∃ sp, newest doc w.trace = some sp ∧ sp.call = c) : Orderly doc w (.op i choice) := by
  rintro c' e' k' hk -
  cases hthread.symm.trans hk
  exact ⟨hwrites, fun carriedOut h => absurd h (hchoice carriedOut)⟩

namespace Killed
open Sample

def document : String × String := ("acme", "000000000000000000000000")

def call : Call := .ingest narrow "acme" upload

/-- The process dies between the chunks and the record. -/
def acts : List (system service).Act := [.start 0 call, .op 0 .done, .op 0 .done, .op 0 .done, .op 0 .done, .kill 0]

theorem alone : ∀ a ∈ acts, ∀ i, a.thread = some i → i = 0 := by simp [acts, Act.thread]

theorem comes : ((emptyPool service).run acts).isSome = true := by decide

def after : Pool service := ((emptyPool service).run acts).get comes

theorem threads_none (as : List (system service).Act) {w : Pool service} (h : (emptyPool service).run as = some w)
    (has : ∀ a ∈ as, ∀ i, a.thread = some i → i = 0) (hzero : w.threads 0 = none) (i : Nat) : w.threads i = none := by
  by_cases hi : i = 0
  · rw [hi, hzero]
  · exact World.run_threads (fun a ha hthread => hi (has a ha i hthread)) h

theorem not_covered : ¬∀ w, World.Reaches World.anyStep (emptyPool service) w →
    (∀ i th, w.threads i = some th → th.call.account service ≠ some document) → Covered document w := by
  intro h
  have hcovered := h after (World.reaches_of_run (fun _ _ _ => trivial) (Option.some_get comes).symm) fun i th hth =>
    nomatch (threads_none acts (Option.some_get comes).symm alone rfl i).symm.trans hth
  obtain ⟨r, hr⟩ := hcovered.registered "acme/000000000000000000000000/0" _ rfl ⟨rfl, rfl⟩
  cases hr

theorem covered_ingested : ∃ w : Pool service, (∃ id p, w.state.points id = some p) ∧ Covered document w := by
  have h₁ := Relation.ReflTransGen.tail (r := World.Next (Orderly document)) (.refl (a := emptyPool service)) ⟨.start 0 call, trivial, rfl⟩
  have h₂ := h₁.tail ⟨.op 0 .done, orderly_of rfl nofun nofun, rfl⟩
  have h₃ := h₂.tail ⟨.op 0 .done, orderly_of rfl nofun nofun, rfl⟩
  have h₄ := h₃.tail ⟨.op 0 .done, orderly_of rfl nofun nofun, rfl⟩
  have h₅ := h₄.tail ⟨.op 0 .done, orderly_of rfl nofun fun _ => ⟨_, rfl, rfl⟩, rfl⟩
  have h₆ := h₅.tail ⟨.op 0 (.time 7), orderly_of rfl nofun nofun, rfl⟩
  have h₇ := h₆.tail ⟨.op 0 .done, orderly_of rfl nofun fun _ => ⟨_, rfl, rfl⟩, rfl⟩
  refine ⟨_, ⟨"acme/000000000000000000000000/1", _, rfl⟩, orderly_covered Function.injective_id h₇ fun i th hth => ?_⟩
  cases (threads_none [.start 0 call, .op 0 .done, .op 0 .done, .op 0 .done, .op 0 .done, .op 0 (.time 7), .op 0 .done] rfl
    (by simp [Act.thread]) rfl i).symm.trans hth

end Killed

end NexusGate.Rag.Ingest
