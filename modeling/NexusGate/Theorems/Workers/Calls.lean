import NexusGate.Theorems.Workers.KeySpaces
import NexusGate.Workers.Faults

/-! # Saving and counting while Redis fails

What `save` and `count` of the job store leave when any of their commands is lost, before or after it took effect.
The keys hold what they are for, so that nothing but a lost connection makes a command fail. -/

namespace NexusGate.Workers
open Async Redis Rag

/-- `OUTCOMES`. -/
def outcomes : List String := ["submitted", "done", "failed", "retried"]

/-- How often an outcome has been counted. -/
def State.tally (s : State) (o : String) : Option Int :=
  (hash? s.now s.store statsKey).bind fun h => match h.lookup o with
    | none => some 0
    | some (.int n) => some n
    | some _ => none

/-- The record of the job has just been saved: it is there, and it expires. -/
def State.Saved (s : State) (jobs : JobStore) (t : String) (job : IngestJob) : Prop :=
  live? s.now s.store (jobKey t job.jobId) = some ⟨.str (.job job), some (deadline s.now jobs.retention)⟩

/-- The keys that every call of tenant `t` writes hold what they are for. -/
structure Kinds (t : String) (s : State) : Prop where
  accepted : t ∉ reservedTenants
  sequence : ∃ n, int? s.now s.store sequenceKey = some n
  index : ∃ z, zset? s.now s.store (indexKey t) = some z
  stats : ∀ o ∈ outcomes, ∃ n, s.tally o = some n

/-- From `s` to `s'` only these keys have changed. -/
structure Apart (ks : List String) (s s' : State) : Prop extends SameRest s s' where
  frame : ∀ k ∉ ks, s'.store.lookup k = s.store.lookup k

/-- From the `n`th call on, a record is written: the sequence number is drawn, and the transaction takes effect. -/
def Faults.writes (f : Faults) (n : Nat) : Bool := (f.lost n).isNone && f.lost (n + 1) != some false

/-- The calls before the `n`th all return. -/
def Faults.clear (f : Faults) (n : Nat) : Bool := (List.range n).all fun i => (f.lost i).isNone

section Faults
variable {f : Faults} {m n : Nat}

theorem clear_iff : f.clear n = true ↔ ∀ i < n, f.lost i = none := by
  simp [Faults.clear]

theorem clear_succ (h : f.clear n = true) (hl : f.lost n = none) : f.clear (n + 1) = true := by
  rw [clear_iff] at h ⊢
  intro i hi
  rcases Nat.lt_succ_iff_lt_or_eq.mp hi with hi | rfl
  · exact h i hi
  · exact hl

theorem clear_mono (h : f.clear n = true) (hmn : m ≤ n) : f.clear m = true :=
  clear_iff.mpr fun i hi => clear_iff.mp h i (Nat.lt_of_lt_of_le hi hmn)

theorem writes_of_clear (h : f.clear (n + 2) = true) : f.writes n = true := by
  have h₀ := clear_iff.mp h n (by omega)
  have h₁ := clear_iff.mp h (n + 1) (by omega)
  simp [Faults.writes, h₀, h₁]

end Faults

/-! ### Keys that are left alone -/

section Apart
variable {ks ks' : List String} {s s' s'' : State} {t j : String}

theorem Apart.refl : Apart ks s s := ⟨⟨rfl, rfl, rfl⟩, fun _ _ => rfl⟩

theorem Apart.trans (h : Apart ks s s') (h' : Apart ks s' s'') : Apart ks s s'' :=
  ⟨⟨h'.now.trans h.now, h'.drawn.trans h.drawn, h'.messages.trans h.messages⟩, fun k hk => (h'.frame k hk).trans (h.frame k hk)⟩

theorem Apart.mono (h : Apart ks s s') (hks : ks ⊆ ks') : Apart ks' s s' :=
  ⟨h.toSameRest, fun k hk => h.frame k fun hmem => hk (hks hmem)⟩

theorem Apart.store {st : Store Blob} (h : ∀ k ∉ ks, st.lookup k = s.store.lookup k) : Apart ks s { s with store := st } :=
  ⟨⟨rfl, rfl, rfl⟩, h⟩

theorem Apart.value (h : Apart ks s s') {k : String} (hk : k ∉ ks) :
    value? s'.now s'.store k = value? s.now s.store k := by
  rw [h.now]
  exact value?_congr (h.frame k hk)

theorem Apart.live (h : Apart ks s s') {k : String} (hk : k ∉ ks) : live? s'.now s'.store k = live? s.now s.store k := by
  rw [h.now]
  exact live?_congr (h.frame k hk)

theorem Apart.record (h : Apart ks s s') (hk : jobKey t j ∉ ks) : s'.record? t j = s.record? t j := by
  rw [State.record?, State.record?, h.value hk]

theorem Apart.tally (h : Apart ks s s') (hk : statsKey ∉ ks) (o : String) : s'.tally o = s.tally o := by
  rw [State.tally, State.tally, h.now, hash?_congr (h.frame _ hk)]

theorem Apart.int (h : Apart ks s s') {k : String} (hk : k ∉ ks) : int? s'.now s'.store k = int? s.now s.store k := by
  rw [int?, int?, h.value hk]

theorem State.Saved.record {jobs : JobStore} {job : IngestJob} (h : s.Saved jobs t job) :
    s.record? t job.jobId = some job := by
  rw [State.record?, value?, h]
  rfl

theorem State.Saved.kept {jobs : JobStore} {job : IngestJob} (h : s.Saved jobs t job) (ha : Apart ks s s')
    (hk : jobKey t job.jobId ∉ ks) : s'.Saved jobs t job := by
  rw [State.Saved, ha.live hk, ha.now]
  exact h

/-- A call that writes other keys. -/
theorem Kinds.apart (h : Kinds t s) (ha : Apart ks s s') (hsequence : sequenceKey ∉ ks) (hindex : indexKey t ∉ ks)
    (hstats : statsKey ∉ ks) : Kinds t s' where
  accepted := h.accepted
  sequence := (ha.int hsequence).symm ▸ h.sequence
  index := by
    rw [zset?, ha.value hindex]
    exact h.index
  stats o ho := (ha.tally hstats o).symm ▸ h.stats o ho

theorem Kinds.index_ne (h : Kinds t s) : indexKey t ≠ sequenceKey ∧ indexKey t ≠ statsKey := by
  have h : indexKey t ∉ globalKeys := mt indexKey_mem_globalKeys.mp h.accepted
  simp only [globalKeys, List.mem_cons, not_or] at h
  exact ⟨h.2.2.1, h.2.1⟩

end Apart

/-! ### What a command leaves that is carried out -/

section Store
variable {s : State} {t : String}

/-- The sequence number is drawn. -/
theorem Kinds.drawn (h : Kinds t s) :
    let out := Redis.exec s.now (.incr sequenceKey) s.store
    (∃ m, out.1 = .int m) ∧ Kinds t { s with store := out.2 } ∧ Apart [sequenceKey] s { s with store := out.2 } := by
  intro out
  obtain ⟨m, hm⟩ := h.sequence
  obtain ⟨hr, hv⟩ := exec_incr_int hm
  have happart : Apart [sequenceKey] s { s with store := out.2 } := .store fun k hk => exec_frame hk
  refine ⟨⟨m + 1, hr⟩, ⟨h.accepted, ⟨m + 1, ?_⟩, ?_, fun o ho => ?_⟩, happart⟩
  · show int? s.now out.2 _ = _
    rw [int?, hv]
    rfl
  · rw [zset?, happart.value (by simpa using h.index_ne.1)]
    exact h.index
  · rw [happart.tally (by decide)]
    exact h.stats o ho

/-- A save into an index that is one: nothing in the transaction is refused. -/
theorem execAll_saved {st : Store Blob} {jobs : JobStore} (job : IngestJob) (m : Int) (hr : 0 < jobs.retention) {now : Nat}
    {z : AList fun _ : String => ℚ} (hz : zset? now st (indexKey job.tenantId) = some z) :
    let out := Redis.execAll now (jobs.saveCmds job m) st
    out.1.any Reply.failed = false ∧
      live? now out.2 (jobKey job.tenantId job.jobId) = some ⟨.str (.job job), some (deadline now jobs.retention)⟩ ∧
      ∃ z', zset? now out.2 (indexKey job.tenantId) = some z' := by
  intro out
  let key := jobKey job.tenantId job.jobId
  let index := indexKey job.tenantId
  let st₁ := st.insert key ⟨.str (.job job), some (deadline now jobs.retention)⟩
  let st₂ := (Redis.exec now (.zadd index [(job.jobId, m)] true) st₁).2
  have hset : Redis.exec now (.set key (.job job) (some jobs.retention) false) st = (.ok, st₁) := exec_set hr
  have hkey : live? now st₁ key = some ⟨.str (.job job), some (deadline now jobs.retention)⟩ :=
    live?_insert (by simp [Entry.live, deadline, hr])
  have hz₁ : zset? now st₁ index = some z :=
    (zset?_congr (value?_congr (AList.lookup_insert_ne jobKey_ne_indexKey.symm))).trans hz
  obtain ⟨⟨added, hadded⟩, z', hz'⟩ := @exec_zadd_zset _ _ now st₁ index [(job.jobId, m)] true z hz₁
  obtain ⟨renewed, hrenewed⟩ := @exec_expire_int _ _ now jobs.retention st₂ index
  have hreplies : out.1 = [.ok, .int added, .int renewed] := by
    simp only [out, JobStore.saveCmds, execAll_cons_fst]
    rw [hset, hadded, hrenewed]
    rfl
  have hstore : out.2 = (Redis.exec now (.expire index jobs.retention) st₂).2 := by
    simp only [out, JobStore.saveCmds, execAll_cons_snd]
    rw [hset]
    rfl
  refine ⟨by rw [hreplies]; rfl, ?_, z', ?_⟩
  · have hother : key ∉ [index] := by simp [key, index, jobKey_ne_indexKey]
    have hframe : out.2.lookup key = st₁.lookup key := by
      rw [hstore]
      exact (exec_frame (c := .expire index jobs.retention) hother).trans (exec_frame (c := .zadd index [(job.jobId, m)] true) hother)
    exact (live?_congr hframe).trans hkey
  · rw [hstore]
    exact (zset?_congr (exec_expire_keeps hr)).trans hz'

/-- The record is written. -/
theorem Kinds.saved (h : Kinds t s) {jobs : JobStore} (hr : 0 < jobs.retention) {job : IngestJob} (ht : job.tenantId = t)
    (m : Int) :
    let out := Redis.execAll s.now (jobs.saveCmds job m) s.store
    let s' := { s with store := out.2 }
    out.1.any Reply.failed = false ∧ Kinds t s' ∧ s'.Saved jobs t job ∧ Apart [jobKey t job.jobId, indexKey t] s s' := by
  subst ht
  intro out s'
  obtain ⟨z, hz⟩ := h.index
  obtain ⟨hok, hrecord, hindex⟩ := execAll_saved job m hr hz
  have happart : Apart [jobKey job.tenantId job.jobId, indexKey job.tenantId] s s' := .store fun k hk => by
    simp only [List.mem_cons, List.not_mem_nil, or_false, not_or] at hk
    exact (execAll_save jobs job m s.now s.store).1 k hk.1 hk.2
  refine ⟨hok, ⟨h.accepted, ?_, hindex, fun o ho => ?_⟩, hrecord, happart⟩
  · rw [happart.int (by simp [jobKey_ne_sequenceKey.symm, h.index_ne.1.symm])]
    exact h.sequence
  · rw [happart.tally (by simp [jobKey_ne_statsKey.symm, h.index_ne.2.symm])]
    exact h.stats o ho

/-- An outcome is counted. -/
theorem Kinds.tallied (h : Kinds t s) {o : String} {n : Int} (hn : s.tally o = some n) :
    let out := Redis.exec s.now (.hincrby statsKey o 1) s.store
    let s' := { s with store := out.2 }
    (∃ m, out.1 = .int m) ∧ Kinds t s' ∧ s'.tally o = some (n + 1) ∧ Apart [statsKey] s s' := by
  intro out s'
  obtain ⟨fields, hfields, hcount⟩ := Option.bind_eq_some_iff.mp hn
  have hm : (fields.lookup o = none ∧ n = 0) ∨ ∃ b, fields.lookup o = some b ∧ Payload.int? b = some n := by
    split at hcount
    · exact Or.inl ⟨‹_›, (Option.some.inj hcount).symm⟩
    · exact Or.inr ⟨_, ‹_›, hcount⟩
    · cases hcount
  obtain ⟨hr, hs⟩ := exec_hincrby_hash (n := 1) hfields hm
  have hs : hash? s'.now s'.store statsKey = some (fields.insert o (.int (n + 1))) := hs
  have happart : Apart [statsKey] s s' := .store fun k hk => exec_frame hk
  have htally : s'.tally o = some (n + 1) := by
    rw [State.tally, hs, Option.bind_some, AList.lookup_insert]
  refine ⟨⟨_, hr⟩, ⟨h.accepted, ?_, ?_, fun o' ho' => ?_⟩, htally, happart⟩
  · rw [happart.int (by decide)]
    exact h.sequence
  · rw [zset?, happart.value (by simpa using h.index_ne.2)]
    exact h.index
  · by_cases heq : o' = o
    · exact heq ▸ ⟨_, htally⟩
    · obtain ⟨n', hn'⟩ := h.stats o' ho'
      refine ⟨n', ?_⟩
      rw [State.tally, hs, Option.bind_some, AList.lookup_insert_ne heq]
      rw [State.tally, hfields, Option.bind_some] at hn'
      exact hn'

end Store

/-! ### The methods -/

section Methods
variable {f : Faults} {a : Alone} {t : String}

/-- A save draws a number and writes the record; either step can fail. -/
theorem Kinds.save_ends (h : Kinds t a.toState) {jobs : JobStore} (hr : 0 < jobs.retention) {job : IngestJob}
    (ht : job.tenantId = t) {Q : Except Exn IngestJob → Alone → Prop}
    (hok : f.lost a.calls = none → f.lost (a.calls + 1) = none → ∀ a', Kinds t a'.toState →
      a'.toState.Saved jobs t { job with updatedAt := f.date } →
      Apart [sequenceKey, jobKey t job.jobId, indexKey t] a.toState a'.toState → a'.calls = a.calls + 2 →
      Q (.ok { job with updatedAt := f.date }) a')
    (hlate : f.lost a.calls = none → f.lost (a.calls + 1) = some true → ∀ a', Kinds t a'.toState →
      a'.toState.Saved jobs t { job with updatedAt := f.date } →
      Apart [sequenceKey, jobKey t job.jobId, indexKey t] a.toState a'.toState → Q (.error connectionError) a')
    (hlost : f.writes a.calls = false → ∀ a', Kinds t a'.toState → Apart [sequenceKey] a.toState a'.toState →
      Q (.error connectionError) a') :
    Ends f.answer (jobs.save job) a Q := by
  obtain ⟨⟨m, hm⟩, hdrawn, happart⟩ := h.drawn
  refine Ends.bind_iff.mpr (Faults.utcnow_ends (Ends.bind_iff.mpr (Faults.redis_ends (fun hl => ?_) (fun hl => ?_) fun hl => ?_)))
  · rw [hm]
    have hstamped : ({ job with updatedAt := f.date } : IngestJob).tenantId = t := ht
    obtain ⟨haccepted, hsaved, hrecord, happart'⟩ := hdrawn.saved hr hstamped m
    have hboth : Apart [sequenceKey, jobKey t job.jobId, indexKey t] a.toState _ :=
      (happart.mono (by simp)).trans (happart'.mono (by simp))
    refine Ends.bind_iff.mpr (Faults.multi_ends (fun hl' => ?_) (fun hl' => ?_) fun hl' => ?_)
    · rw [haccepted]
      exact hok hl hl' _ hsaved hrecord hboth rfl
    · exact hlost (by simp [Faults.writes, hl']) _ hdrawn happart
    · exact hlate hl hl' _ hsaved hrecord hboth
  · exact hlost (by simp [Faults.writes, hl]) _ h .refl
  · exact hlost (by simp [Faults.writes, hl]) _ hdrawn happart

theorem Kinds.count_ends (h : Kinds t a.toState) {jobs : JobStore} {o : String} {n : Int}
    (hn : a.toState.tally o = some n) {Q : Except Exn Unit → Alone → Prop}
    (hok : f.lost a.calls = none → ∀ a', Kinds t a'.toState → a'.toState.tally o = some (n + 1) →
      Apart [statsKey] a.toState a'.toState → a'.calls = a.calls + 1 → Q (.ok ()) a')
    (hlost : ∀ applied, f.lost a.calls = some applied → ∀ a', Kinds t a'.toState →
      a'.toState.tally o = some (if applied then n + 1 else n) → Apart [statsKey] a.toState a'.toState →
      Q (.error connectionError) a') :
    Ends f.answer (jobs.count o) a Q := by
  obtain ⟨⟨m, hm⟩, hkinds, htally, happart⟩ := h.tallied hn
  refine Ends.bind_iff.mpr (Faults.redis_ends (fun hl => ?_) (fun hl => hlost false hl _ h hn .refl) fun hl =>
    hlost true hl _ hkinds htally happart)
  rw [hm]
  exact hok hl _ hkinds htally happart rfl

end Methods
end NexusGate.Workers
