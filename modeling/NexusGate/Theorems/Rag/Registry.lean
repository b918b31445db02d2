import NexusGate.Redis.SortedSets
import NexusGate.Theorems.Rag.DocumentStores

/-! # The registry of documents

Record and index of a document are written and removed in one transaction, so they never say different things: the index
of a tenant has the documents that have a record, each with the time of its record. -/

namespace NexusGate.Rag.Ingest
open Async Async.System Redis

variable {D : Type} {self : IngestionService D} {t t' d d' : String} {redis : Store Blob} {z : AList fun _ : String => ℚ}

/-! ### Keys -/

theorem recordKey_ne_indexKey : recordKey t d ≠ indexKey t' := by
  unfold recordKey indexKey
  rw [String.append_assoc, String.append_assoc]
  exact Text.append_ne_append (by decide) (by decide)

theorem recordKey_inj (ht : Api.tenantPattern t = true) (ht' : Api.tenantPattern t' = true) (h : recordKey t d = recordKey t' d') :
    t = t' ∧ d = d' := by
  unfold recordKey at h
  rw [String.append_assoc, String.append_assoc, String.append_assoc, String.append_assoc] at h
  have h := (String.append_right_inj _).mp h
  rw [← String.append_assoc, ← String.append_assoc] at h
  exact Text.eq_of_first_sep (rfl : ":".toList = [':']) (Api.tenantPattern_no_colon ht) (Api.tenantPattern_no_colon ht') h

theorem indexKey_inj (h : indexKey t = indexKey t') : t = t' := (String.append_right_inj _).mp h

/-! ### Record and index -/

/-- The index is a sorted set, if there is one. -/
def Indexed (redis : Store Blob) (t : String) (z : AList fun _ : String => ℚ) : Prop :=
  (redis.lookup (indexKey t) = none ∧ z = ∅) ∨ redis.lookup (indexKey t) = some ⟨.zset z, none⟩

/-- The document has this record. -/
def Recorded (redis : Store Blob) (t d : String) (r : DocumentRecord) : Prop :=
  redis.lookup (recordKey t d) = some ⟨.str (.record r), none⟩

/-- The score of a record. -/
def score (r : DocumentRecord) : ℚ := (r.createdAt : ℚ) / 1000

/-- The index has the documents of the tenant that have a record, and nothing else. -/
structure Catalogued (redis : Store Blob) (t : String) (z : AList fun _ : String => ℚ) : Prop where
  index : Indexed redis t z
  records : ∀ d, (∃ r, Recorded redis t d r ∧ r.docId = d ∧ z.lookup d = some (score r)) ∨
    (redis.lookup (recordKey t d) = none ∧ z.lookup d = none)

/-- The registry of every tenant. -/
def Catalogue (redis : Store Blob) : Prop := ∀ t, Api.tenantPattern t = true → ∃ z, Catalogued redis t z

theorem catalogue_empty : Catalogue ∅ := fun _ _ => ⟨∅, Or.inl ⟨rfl, rfl⟩, fun _ => Or.inr ⟨rfl, rfl⟩⟩

theorem live?_of_lookup (now : Nat) {k : String} {v : Value Blob} (h : redis.lookup k = some ⟨v, none⟩) :
    live? now redis k = some ⟨v, none⟩ :=
  live?_eq_some.mpr ⟨h, rfl⟩

theorem value?_of_lookup (now : Nat) {k : String} {v : Value Blob} (h : redis.lookup k = some ⟨v, none⟩) :
    value? now redis k = some v := by
  rw [value?, live?_of_lookup now h]
  rfl

theorem Indexed.zset (now : Nat) (h : Indexed redis t z) :
    zset? now redis (indexKey t) = some z ∧ (live? now redis (indexKey t)).bind Entry.expiresAt = none := by
  rcases h with ⟨h, rfl⟩ | h
  · have hl : live? now redis (indexKey t) = none := by
      rw [live?, h]
      rfl
    rw [zset?, value?, hl]
    exact ⟨rfl, rfl⟩
  · rw [zset?, value?_of_lookup now h, live?_of_lookup now h]
    exact ⟨rfl, rfl⟩

theorem Indexed.congr {redis' : Store Blob} (h : Indexed redis t z) (hk : redis'.lookup (indexKey t) = redis.lookup (indexKey t)) :
    Indexed redis' t z := by
  unfold Indexed
  rw [hk]
  exact h

theorem Catalogued.congr {redis' : Store Blob} (h : Catalogued redis t z)
    (hindex : redis'.lookup (indexKey t) = redis.lookup (indexKey t))
    (hrecord : ∀ d, redis'.lookup (recordKey t d) = redis.lookup (recordKey t d)) : Catalogued redis' t z where
  index := h.index.congr hindex
  records d := by
    unfold Recorded
    rw [hrecord]
    exact h.records d

/-! ### The two transactions -/

theorem exec_zadd_index (now : Nat) {q : ℚ} (h : Indexed redis t z) : ∃ n : Int,
    Redis.exec now (.zadd (indexKey t) [(d, q)] false) redis = (.int n, redis.insert (indexKey t) ⟨.zset (z.insert d q), none⟩) := by
  obtain ⟨hz, hexp⟩ := h.zset now
  simp only [Redis.exec]
  rw [onZset_zset hz, hexp]
  exact ⟨([(d, q)].countP fun m => (z.lookup m.1).isNone : Nat), by simp⟩

theorem exec_zrem_index (now : Nat) (h : Indexed redis t z) : ∃ n : Int,
    Redis.exec now (.zrem (indexKey t) [d]) redis = (.int n, if (z.erase d).entries = [] then redis.erase (indexKey t)
      else redis.insert (indexKey t) ⟨.zset (z.erase d), none⟩) := by
  obtain ⟨hz, hexp⟩ := h.zset now
  simp only [Redis.exec]
  rw [onZset_zset hz, hexp]
  exact ⟨_, rfl⟩

/-- What `put` leaves. -/
theorem put_eq (now : Nat) {r : DocumentRecord} (h : Indexed redis t z) : ∃ n : Int,
    execAll now (Registry.putCmds t r) redis = ([.ok, .int n],
      (redis.insert (recordKey t r.docId) ⟨.str (.record r), none⟩).insert (indexKey t) ⟨.zset (z.insert r.docId (score r)), none⟩) := by
  have hset : Redis.exec now (.set (recordKey t r.docId) (.record r) none false) redis =
      (.ok, redis.insert (recordKey t r.docId) ⟨.str (.record r), none⟩) := by simp [Redis.exec]
  have hindex : Indexed (redis.insert (recordKey t r.docId) ⟨.str (.record r), none⟩) t z :=
    h.congr (AList.lookup_insert_ne recordKey_ne_indexKey.symm)
  obtain ⟨n, hzadd⟩ := exec_zadd_index now hindex (d := r.docId) (q := score r)
  have hcmds : Registry.putCmds t r = [.set (recordKey t r.docId) (.record r) none false,
      .zadd (indexKey t) [(r.docId, score r)] false] := rfl
  exact ⟨n, by simp only [hcmds, execAll, hset, hzadd]⟩

/-- What `delete` leaves. -/
theorem drop_eq (now : Nat) (h : Indexed redis t z) : ∃ n m : Int,
    execAll now (Registry.deleteCmds t d) redis = ([.int n, .int m],
      if (z.erase d).entries = [] then (redis.erase (recordKey t d)).erase (indexKey t)
      else (redis.erase (recordKey t d)).insert (indexKey t) ⟨.zset (z.erase d), none⟩) := by
  have hindex : Indexed (redis.erase (recordKey t d)) t z := h.congr (AList.lookup_erase_ne recordKey_ne_indexKey.symm)
  obtain ⟨m, hzrem⟩ := exec_zrem_index now hindex (d := d)
  have hdel : Redis.exec now (.del [recordKey t d]) redis =
      (.int ([recordKey t d].countP fun k => (value? now redis k).isSome : Nat), redis.erase (recordKey t d)) := rfl
  exact ⟨([recordKey t d].countP fun k => (value? now redis k).isSome : Nat), m,
    by simp only [Registry.deleteCmds, execAll, hdel, hzrem]⟩

theorem put_writes {r : DocumentRecord} {k : String} (hr : k ≠ recordKey t r.docId) (hi : k ≠ indexKey t) :
    ∀ c ∈ Registry.putCmds t r, k ∉ c.writes := by
  simp [Registry.putCmds, Cmd.writes, hr, hi]

theorem drop_writes {k : String} (hr : k ≠ recordKey t d) (hi : k ≠ indexKey t) : ∀ c ∈ Registry.deleteCmds t d, k ∉ c.writes := by
  simp [Registry.deleteCmds, Cmd.writes, hr, hi]

/-- Commands on the keys of one tenant leave the registry of another. -/
theorem Catalogued.other {now : Nat} {cs : List (Cmd Blob)} (h : Catalogued redis t z)
    (hindex : ∀ c ∈ cs, indexKey t ∉ c.writes) (hrecord : ∀ d, ∀ c ∈ cs, recordKey t d ∉ c.writes) :
    Catalogued (execAll now cs redis).2 t z :=
  h.congr (execAll_frame hindex) fun d => execAll_frame (hrecord d)

theorem Catalogued.put (now : Nat) {r : DocumentRecord} (ht : Api.tenantPattern t = true) (h : Catalogued redis t z) :
    Catalogued (execAll now (Registry.putCmds t r) redis).2 t (z.insert r.docId (score r)) := by
  obtain ⟨n, hout⟩ := put_eq now h.index (r := r)
  rw [hout]
  refine ⟨Or.inr (AList.lookup_insert _), fun d => ?_⟩
  unfold Recorded
  dsimp only
  rw [AList.lookup_insert_ne recordKey_ne_indexKey]
  by_cases hd : d = r.docId
  · subst hd
    exact Or.inl ⟨r, AList.lookup_insert _, rfl, AList.lookup_insert _⟩
  · have hk : recordKey t d ≠ recordKey t r.docId := fun hk => hd (recordKey_inj ht ht hk).2
    rw [AList.lookup_insert_ne hk, AList.lookup_insert_ne hd]
    exact h.records d

theorem Catalogued.drop (now : Nat) (ht : Api.tenantPattern t = true) (h : Catalogued redis t z) :
    Catalogued (execAll now (Registry.deleteCmds t d) redis).2 t (z.erase d) := by
  obtain ⟨n, m, hout⟩ := drop_eq now h.index (d := d)
  rw [hout]
  dsimp only
  have hindex : Indexed (if (z.erase d).entries = [] then (redis.erase (recordKey t d)).erase (indexKey t)
      else (redis.erase (recordKey t d)).insert (indexKey t) ⟨.zset (z.erase d), none⟩) t (z.erase d) := by
    split
    · rename_i hnil
      exact Or.inl ⟨AList.lookup_erase .., AList.ext hnil⟩
    · exact Or.inr (AList.lookup_insert _)
  have hrecord (d' : String) : (if (z.erase d).entries = [] then (redis.erase (recordKey t d)).erase (indexKey t)
      else (redis.erase (recordKey t d)).insert (indexKey t) ⟨.zset (z.erase d), none⟩).lookup (recordKey t d') =
        (redis.erase (recordKey t d)).lookup (recordKey t d') := by
    split
    · exact AList.lookup_erase_ne recordKey_ne_indexKey
    · exact AList.lookup_insert_ne recordKey_ne_indexKey
  refine ⟨hindex, fun d' => ?_⟩
  unfold Recorded
  rw [hrecord]
  by_cases hd : d' = d
  · subst hd
    exact Or.inr ⟨AList.lookup_erase .., AList.lookup_erase ..⟩
  · have hk : recordKey t d' ≠ recordKey t d := fun hk => hd (recordKey_inj ht ht hk).2
    rw [AList.lookup_erase_ne hk, AList.lookup_erase_ne hd]
    exact h.records d'

theorem Catalogue.put (now : Nat) {r : DocumentRecord} (ht : Api.tenantPattern t = true) (h : Catalogue redis) :
    Catalogue (execAll now (Registry.putCmds t r) redis).2 := by
  intro t' ht'
  obtain ⟨z, hz⟩ := h t' ht'
  by_cases heq : t' = t
  · subst heq
    exact ⟨_, hz.put now ht⟩
  · refine ⟨z, hz.other (put_writes recordKey_ne_indexKey.symm fun hk => heq (indexKey_inj hk)) fun d => ?_⟩
    exact put_writes (fun hk => heq (recordKey_inj ht' ht hk).1) recordKey_ne_indexKey

theorem Catalogue.drop (now : Nat) (ht : Api.tenantPattern t = true) (h : Catalogue redis) :
    Catalogue (execAll now (Registry.deleteCmds t d) redis).2 := by
  intro t' ht'
  obtain ⟨z, hz⟩ := h t' ht'
  by_cases heq : t' = t
  · subst heq
    exact ⟨_, hz.drop now ht⟩
  · refine ⟨z, hz.other (drop_writes recordKey_ne_indexKey.symm fun hk => heq (indexKey_inj hk)) fun d' => ?_⟩
    exact drop_writes (fun hk => heq (recordKey_inj ht' ht hk).1) recordKey_ne_indexKey

theorem Deed.catalogue {c : Call} {g : Phase} {e : Op D} {s : State D} (h : Deed self c g e) (ht : Api.tenantPattern c.tenantId = true)
    (hs : Catalogue s.redis) : Catalogue (e.effect s).redis := by
  cases h with
  | clear | send => exact hs
  | put => exact hs.put s.now ht
  | drop => exact hs.drop s.now ht
  | idle hq _ => exact (Op.quiet_effect hq s).symm ▸ hs

/-- A transaction on the registry does not fail. -/
theorem Deed.answers {c : Call} {g : Phase} {cs : List (Cmd Blob)} {s : State D} (h : Deed self c g (.multi cs))
    (ht : Api.tenantPattern c.tenantId = true) (hs : Catalogue s.redis) : ((execAll s.now cs s.redis).1.any failed) = false := by
  cases h with
  | put =>
    obtain ⟨z, hz⟩ := hs _ ht
    obtain ⟨n, hout⟩ := put_eq s.now hz.index
    exact (congrArg (fun o => o.1.any failed) hout).trans rfl
  | drop =>
    obtain ⟨z, hz⟩ := hs _ ht
    obtain ⟨n, m, hout⟩ := drop_eq s.now hz.index
    exact (congrArg (fun o => o.1.any failed) hout).trans rfl
  | idle hq _ => cases hq

/-! ### Reading the registry -/

section Reading
variable {s : State D}

/-- The record that is stored for a document. -/
def recordAt (redis : Store Blob) (t d : String) : Option DocumentRecord :=
  match redis.lookup (recordKey t d) with
  | some ⟨.str (.record r), _⟩ => some r
  | _ => none

theorem recordAt_eq_some {r : DocumentRecord} (h : Recorded redis t d r) : recordAt redis t d = some r := by
  rw [recordAt, h]

theorem get_run (h : Catalogue s.redis) (ht : Api.tenantPattern t = true) :
    (Registry.get t d : Program D _).run (answering self) s = (.ok (recordAt s.redis t d), s) := by
  obtain ⟨z, hz⟩ := h t ht
  have hcall : answering self (.redis (.get (recordKey t d)) : Op D) s = (.ok ((recordAt s.redis t d).elim .nil fun r => .bulk (.record r)), s) := by
    rcases hz.records d with ⟨r, hr, -, -⟩ | ⟨hnone, -⟩
    · have hexec : Redis.exec s.now (.get (recordKey t d)) s.redis = (.bulk (.record r), s.redis) := by
        rw [Redis.exec, value?_of_lookup s.now hr]
      simp [answering, Op.answer, Op.effect, hexec, failed, recordAt_eq_some hr]
    · have hexec : Redis.exec s.now (.get (recordKey t d)) s.redis = (.nil, s.redis) := by
        rw [Redis.exec, value?, live?, hnone]
        rfl
      have hat : recordAt s.redis t d = none := by rw [recordAt, hnone]
      simp [answering, Op.answer, Op.effect, hexec, failed, hat]
  rw [Registry.get, Prog.bind_eq, Prog.run_bind, Prog.run_call, hcall]
  cases recordAt s.redis t d <;> rfl

theorem get_recorded (h : Catalogue s.redis) (ht : Api.tenantPattern t = true) {r : DocumentRecord} (hr : Recorded s.redis t d r) :
    ((Registry.get t d : Program D _).run (answering self) s).1 = .ok (some r) := by
  rw [get_run h ht, recordAt_eq_some hr]

theorem records_eq (now : Nat) : ∀ {ds : List String}, (∀ d ∈ ds, ∃ r, Recorded redis t d r) →
    Registry.records ((ds.map (recordKey t)).map (str? now redis)) = .ok (ds.filterMap (recordAt redis t))
  | [], _ => rfl
  | d :: ds, h => by
    obtain ⟨r, hr⟩ := h d List.mem_cons_self
    have ih := records_eq now fun d' hd' => h d' (List.mem_cons_of_mem _ hd')
    rw [List.map_cons, List.map_cons, str?_of_value (value?_of_lookup now hr), List.filterMap_cons, recordAt_eq_some hr]
    simp only [Registry.records, ih, Except.map]

/-- A listing has the records of the index, the highest score first. -/
theorem list_run (hz : Catalogued s.redis t z) :
    (Registry.list t : Program D _).run (answering self) s = (.ok ((ranked z).reverse.filterMap (recordAt s.redis t)), s) := by
  have hrange : Redis.exec s.now (.zrevrange (indexKey t) 0 (-1)) s.redis = (.strings (ranked z).reverse, s.redis) := by
    rcases hz.index with ⟨hnone, rfl⟩ | hindex
    · rw [Redis.exec, value?, live?, hnone]
      rfl
    · rw [Redis.exec, value?_of_lookup s.now hindex]
      dsimp only
      rw [slice_all]
  have hcall : answering self (.redis (.zrevrange (indexKey t) 0 (-1)) : Op D) s = (.ok (.strings (ranked z).reverse), s) := by
    simp [answering, Op.answer, Op.effect, hrange, failed]
  rw [Registry.list, Prog.bind_eq, Prog.run_bind, Prog.run_call, hcall]
  have hmem : ∀ d ∈ (ranked z).reverse, ∃ r, Recorded s.redis t d r := by
    intro d hd
    obtain ⟨q, hq⟩ := mem_ranked.mp (List.mem_reverse.mp hd)
    rcases hz.records d with ⟨r, hr, -, -⟩ | ⟨-, hnone⟩
    · exact ⟨r, hr⟩
    · rw [hnone] at hq
      cases hq
  generalize (ranked z).reverse = ds at hmem ⊢
  cases ds with
  | nil => rfl
  | cons d ds =>
    dsimp only
    have hmget : answering self (.redis (.mget ((d :: ds).map (recordKey t))) : Op D) s =
        (.ok (.bulks (((d :: ds).map (recordKey t)).map (str? s.now s.redis))), s) := by
      simp [answering, Op.answer, Op.effect, exec_mget, failed]
    rw [Prog.bind_eq, Prog.run_bind, Prog.run_call, hmget]
    exact (congrArg (fun r => (Prog.ofExcept r : Program D _).run (answering self) s) (records_eq s.now hmem)).trans rfl

/-- A listing has every document that can be fetched, each once, the newest first. -/
structure Lists (service : IngestionService D) (s : State D) (t : String) (records : List DocumentRecord) : Prop where
  listed : ((Registry.list t : Program D _).run (answering service) s).1 = .ok records
  fetched : ∀ r, r ∈ records ↔ ((Registry.get t r.docId : Program D _).run (answering service) s).1 = .ok (some r)
  once : (records.map DocumentRecord.docId).Nodup
  newest : records.Pairwise fun a b => b.createdAt ≤ a.createdAt

theorem Catalogue.lists (h : Catalogue s.redis) (ht : Api.tenantPattern t = true) : ∃ records, Lists self s t records := by
  obtain ⟨z, hz⟩ := h t ht
  have hid {d : String} {r : DocumentRecord} (hr : recordAt s.redis t d = some r) : r.docId = d ∧ z.lookup d = some (score r) := by
    rcases hz.records d with ⟨r', hr', hd, hq⟩ | ⟨hnone, -⟩
    · rw [recordAt_eq_some hr'] at hr
      cases hr
      exact ⟨hd, hq⟩
    · rw [recordAt, hnone] at hr
      cases hr
  refine ⟨(ranked z).reverse.filterMap (recordAt s.redis t), congrArg Prod.fst (list_run hz), fun r => ?_, ?_, ?_⟩
  · rw [get_run h ht, List.mem_filterMap]
    constructor
    · rintro ⟨d, -, hr⟩
      exact congrArg Except.ok ((hid hr).1 ▸ hr)
    · intro hr
      have hr : recordAt s.redis t r.docId = some r := Except.ok.inj hr
      exact ⟨r.docId, List.mem_reverse.mpr (mem_ranked.mpr ⟨_, (hid hr).2⟩), hr⟩
  · rw [List.Nodup, List.pairwise_map, List.pairwise_filterMap]
    refine (List.nodup_reverse.mpr ranked_nodup).imp fun {d d'} hne r hr r' hr' heq => hne ?_
    rw [← (hid hr).1, ← (hid hr').1, heq]
  · rw [List.pairwise_filterMap, List.pairwise_reverse]
    refine ranked_pairwise.imp fun {d d'} hle r' hr' r hr => ?_
    have hscore : (r.createdAt : ℚ) / 1000 ≤ (r'.createdAt : ℚ) / 1000 := hle _ _ (hid hr).2 (hid hr').2
    exact_mod_cast (div_le_div_iff_of_pos_right (by decide +kernel)).mp hscore

end Reading

/-! ### Runs -/

section Runs
variable {P : Pool self → (system self).Act → Prop} {w : Pool self}

/-- What both stores always are. -/
structure Sane {service : IngestionService D} (w : Pool service) : Prop where
  filed : Filed service w.state.points
  catalogue : Catalogue w.state.redis
  admitted : ∀ i th, w.threads i = some th → Api.tenantPattern th.call.tenantId = true

theorem exec_keeps {e : Op D} {choice : Choice} {s s' : State D} {r : Except Exn e.Reply} {Q : State D → Prop}
    (h : exec self e choice s = some (r, s')) (hdone : Q (e.effect s)) (hnot : Q s) : Q s' := by
  rcases exec_cases h with ⟨-, rfl⟩ | ⟨-, rfl | rfl⟩
  · exact hdone
  · exact hdone
  · exact hnot

theorem sane_rules : Rules (watch self) P fun s _ (Γ : Nat → Option (Call × Phase)) =>
    (Filed self s.points ∧ Catalogue s.redis) ∧ ∀ i c g, Γ i = some (c, g) → Api.tenantPattern c.tenantId = true where
  start := by
    intro w Γ i c _ hJ _ hadm _
    refine ⟨hJ.1, fun j c' g' hj => ?_⟩
    rcases board_entry hj with ⟨-, h⟩ | ⟨-, hj⟩
    · cases h
      exact hadm
    · exact hJ.2 j c' g' hj
  op := by
    intro w Γ i choice c g e r s _ hJ hi _ hmay hexec _
    have hdeed := deed_of_may hmay
    refine ⟨advance g e r, exec_next hexec, ?_, fun j c' g' hj => ?_⟩
    · exact exec_keeps (Q := fun s => Filed self s.points ∧ Catalogue s.redis) hexec
        ⟨hdeed.filed hJ.1.1, hdeed.catalogue (hJ.2 i c g hi) hJ.1.2⟩ hJ.1
    · rcases board_entry hj with ⟨-, h⟩ | ⟨-, hj⟩
      · cases h
        exact hJ.2 i c g hi
      · exact hJ.2 j c' g' hj
  ended := fun hJ _ _ => ⟨hJ.1, fun j c' g' hj => hJ.2 j c' g' (clear_entry hj).2⟩
  kill := fun _ hJ _ _ _ => ⟨hJ.1, fun j c' g' hj => hJ.2 j c' g' (clear_entry hj).2⟩
  env := by
    intro w Γ b s _ hJ henv _
    cases henv
    exact hJ

theorem shows_empty : (watch self).Shows (emptyPool self) fun _ => none := fun _ => rfl

theorem sane (h : World.Reaches P (emptyPool self) w) : Sane w := by
  obtain ⟨Γ, hshows, ⟨hfiled, hcatalogue⟩, hadmitted⟩ :=
    sane_rules.reaches watch_sound h ⟨_, shows_empty, ⟨nofun, catalogue_empty⟩, nofun⟩
  refine ⟨hfiled, hcatalogue, fun i th hth => ?_⟩
  obtain ⟨g, hg, -⟩ := hshows.of_thread hth
  exact hadmitted i th.call g hg

/-- Whatever calls come, fail and die: a listing has exactly the documents that can be fetched. -/
theorem registry_lists (h : World.Reaches World.anyStep (emptyPool self) w) (ht : Api.tenantPattern t = true) :
    ∃ records, Lists self w.state t records :=
  (sane h).catalogue.lists ht

end Runs

/-! ### Two documents -/

namespace Sample

/-- A chunker of windows of one word. -/
def narrow : Chunker := buildChunker .fixed 1 0 Nat.one_pos Nat.one_pos

/-- A chunker of windows of two words. -/
def wide : Chunker := buildChunker .fixed 2 0 Nat.two_pos Nat.two_pos

def service : IngestionService Unit where
  store := ⟨false, id, fun _ => [], fun _ => []⟩
  parse _ := .ok [⟨"two words", none⟩]
  stem := id
  documentId data := if data = [] then ⟨"000000000000000000000000", by decide, by decide⟩
    else ⟨"111111111111111111111111", by decide, by decide⟩
  embed _ := ()
  chunker := wide
  chunkerName := "fixed"
  maxBytes := 10

def upload : DocumentUpload := { filename := "a.txt", contentType := none, data := [], title := some "A" }

/-- Two documents are ingested, the second before the record of the first is there, and the first is deleted again. -/
def acts : List (system service).Act :=
  [.start 0 (.ingest narrow "acme" upload), .op 0 .done, .op 0 .done, .op 0 .done, .op 0 .done,
    .start 1 (.ingest wide "acme" { upload with data := [1] }), .op 1 .done, .op 1 .done, .op 1 .done, .op 1 .done,
    .op 1 (.time 7), .op 1 .done, .op 0 (.time 9), .op 0 .done,
    .start 2 (.delete "acme" "000000000000000000000000"), .op 2 .done, .op 2 .done, .op 2 .done]

theorem comes : ((emptyPool service).run acts).isSome = true := by decide

theorem registry_lists_one : ∃ records, Lists service (((emptyPool service).run acts).get comes).state "acme" records :=
  registry_lists (World.reaches_of_run (fun _ _ _ => trivial) (Option.some_get comes).symm) (by decide)

end Sample

end NexusGate.Rag.Ingest
