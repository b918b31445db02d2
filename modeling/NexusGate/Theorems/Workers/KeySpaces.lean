import NexusGate.Api.Admin
import NexusGate.Async.Solo
import NexusGate.Theorems.Workers.KeyWatch

/-! # The key spaces of the job records

A tenant's keys and the global ones are told apart by their texts alone. Two kinds of names break that:
the tenants `dlq`, `stats` and `seq`, whose index is a global key, and job ids that end in `:attempts`,
whose record key is the attempts counter of another job. -/

namespace NexusGate.Workers
open Async Async.System Redis Rag Api Text

/-- The keys that belong to no tenant. -/
def globalKeys : List String := [dlqKey, statsKey, sequenceKey]

/-- The keys that `JobStore` uses for a job of a tenant. -/
def tenantKeys (t j : String) : List String := [jobKey t j, attemptsKey t j, indexKey t]

/-- The tenants whose index is a global key. -/
def reservedTenants : List String := ["dlq", "stats", "seq"]

/-! ### The texts -/

theorem attemptsKey_eq {t j : String} : attemptsKey t j = jobKey t (j ++ ":attempts") := by
  simp [attemptsKey, jobKey, String.append_assoc]

theorem jobKey_split {t t' j j' : String} (ht : tenantPattern t = true) (ht' : tenantPattern t' = true)
    (h : jobKey t j = jobKey t' j') : t = t' ∧ j = j' := by
  have h' : t ++ ":" ++ j = t' ++ ":" ++ j' := by
    simpa only [jobKey, String.append_assoc, String.append_right_inj] using h
  exact eq_of_first_sep colon_toList (tenantPattern_no_colon ht) (tenantPattern_no_colon ht') h'

theorem indexKey_inj {t t' : String} (h : indexKey t = indexKey t') : t = t' := (String.append_right_inj _).mp h

theorem indexKey_mem_globalKeys {t : String} : indexKey t ∈ globalKeys ↔ t ∈ reservedTenants := by
  have hd : dlqKey = indexKey "dlq" := rfl
  have hs : statsKey = indexKey "stats" := rfl
  have hq : sequenceKey = indexKey "seq" := rfl
  simp only [globalKeys, hd, hs, hq, List.mem_cons, List.not_mem_nil, or_false, reservedTenants]
  exact ⟨Or.imp indexKey_inj (Or.imp indexKey_inj indexKey_inj), Or.imp (congrArg _) (Or.imp (congrArg _) (congrArg _))⟩

theorem jobKey_not_global {t j : String} : jobKey t j ∉ globalKeys := by
  simp [globalKeys, jobKey_ne_dlqKey, jobKey_ne_statsKey, jobKey_ne_sequenceKey]

theorem payloadKey_ne_ragjobs {p x : String} : payloadKey p ≠ "ragjobs:" ++ x :=
  append_ne_append (by decide) (by decide)

theorem payloadKey_not_global {p : String} : payloadKey p ∉ globalKeys := by
  have h : ∀ x, payloadKey p ≠ "ragjobs:" ++ x := fun x => payloadKey_ne_ragjobs
  simpa [globalKeys] using ⟨h "dlq", h "stats", h "seq"⟩

theorem tenantKeys_not_global {t j k : String} (ht : t ∉ reservedTenants) (hk : k ∈ tenantKeys t j) :
    k ∉ globalKeys := by
  simp only [tenantKeys, List.mem_cons, List.not_mem_nil, or_false] at hk
  rcases hk with rfl | rfl | rfl
  · exact jobKey_not_global
  · exact attemptsKey_eq ▸ jobKey_not_global
  · exact mt indexKey_mem_globalKeys.mp ht

/-- Keys of two tenants are never equal. -/
theorem tenantKeys_disjoint {t t' j j' : String} (ht : tenantPattern t = true) (ht' : tenantPattern t' = true)
    (hne : t ≠ t') : (tenantKeys t j).Disjoint (tenantKeys t' j') := by
  intro k hk hk'
  simp only [tenantKeys, attemptsKey_eq, List.mem_cons, List.not_mem_nil, or_false] at hk hk'
  rcases hk with rfl | rfl | rfl <;> rcases hk' with h | h | h
  all_goals first
    | exact hne (jobKey_split ht ht' h).1
    | exact jobKey_ne_indexKey h
    | exact jobKey_ne_indexKey h.symm
    | exact hne (indexKey_inj h)

/-! ### The stored keys -/

/-- What a stored key is, and what it may hold, when `T` are the tenants. -/
inductive KeyOk (T : String → Prop) : String → Value Blob → Prop
  | record {job} (ht : T job.tenantId) (hj : isUuidHex job.jobId = true) :
    KeyOk T (jobKey job.tenantId job.jobId) (.str (.job job))
  | attempts {t j v} (ht : T t) (hj : isUuidHex j = true) : KeyOk T (attemptsKey t j) v
  | shared {x v} : KeyOk T ("ragjobs:" ++ x) v
  | payload {p v} : KeyOk T (payloadKey p) v

/-- Every key that is stored is one of the tenants' or a global one, with a value of its kind. -/
def Keyed (T : String → Prop) (s : Store Blob) : Prop := ∀ k e, s.lookup k = some e → KeyOk T k e.value

section Keyed
variable {T : String → Prop} {s : Store Blob} {now : Nat}

theorem Keyed.exec {c : Cmd Blob} (h : Keyed T s) (hc : ∀ k ∈ c.writes, ∀ v, KeyOk T k v) :
    Keyed T (Redis.exec now c s).2 := by
  intro k e he
  by_cases hk : k ∈ c.writes
  · exact hc k hk e.value
  · exact h k e (exec_frame hk ▸ he)

theorem Keyed.execAll {cs : List (Cmd Blob)} (h : Keyed T s) (hc : ∀ c ∈ cs, ∀ k ∈ c.writes, ∀ v, KeyOk T k v) :
    Keyed T (Redis.execAll now cs s).2 := by
  induction cs generalizing s with
  | nil => exact h
  | cons c cs ih =>
    exact ih (h.exec (hc c List.mem_cons_self)) fun c' hc' => hc c' (List.mem_cons_of_mem _ hc')

theorem Keyed.set {k : String} {v : Blob} {ex : Option Nat} {nx : Bool} (h : Keyed T s) (hv : KeyOk T k (.str v)) :
    Keyed T (Redis.exec now (.set k v ex nx) s).2 := by
  intro k' e he
  by_cases hk : k' = k
  · subst hk
    simp only [Redis.exec] at he
    split at he
    · exact h _ _ he
    · split at he
      · exact h _ _ he
      · rw [AList.lookup_insert] at he
        cases he
        exact hv
  · exact h k' e (exec_frame (c := .set k v ex nx) (by simpa [Cmd.writes] using hk) ▸ he)

theorem Keyed.save {jobs : JobStore} {job : IngestJob} {n : Int} (h : Keyed T s) (ht : T job.tenantId)
    (hj : isUuidHex job.jobId = true) : Keyed T (Redis.execAll now (jobs.saveCmds job n) s).2 := by
  rw [JobStore.saveCmds, execAll_cons_snd]
  refine (h.set (.record ht hj)).execAll fun c hc k hk v => ?_
  simp only [List.mem_cons, List.not_mem_nil, or_false] at hc
  rcases hc with rfl | rfl <;> obtain rfl := List.mem_singleton.mp hk <;> exact .shared

/-- What `JobStore.get` finds is a record of that job, unless the job id ends like a counter's key. -/
theorem Keyed.record {t j : String} (hT : ∀ t, T t → tenantPattern t = true) (h : Keyed T s)
    (ht : tenantPattern t = true) (hj : ∀ id, isUuidHex id = true → j ≠ id ++ ":attempts") {e : Entry Blob}
    (he : s.lookup (jobKey t j) = some e) : ∃ job, e.value = .str (.job job) ∧ job.tenantId = t ∧ job.jobId = j := by
  have hok := h _ e he
  generalize hk : jobKey t j = k, hv : e.value = v at hok
  cases hok with
  | record htj _ =>
    obtain ⟨rfl, rfl⟩ := jobKey_split ht (hT _ htj) hk
    exact ⟨_, rfl, rfl, rfl⟩
  | attempts htj hid => exact absurd (jobKey_split ht (hT _ htj) (hk.trans attemptsKey_eq)).2 (hj _ hid)
  | shared => exact absurd hk jobKey_ne_ragjobs
  | payload => exact absurd hk jobKey_ne_payloadKey

/-- What a delivery finds under the key of a generated job id is a record of that job. -/
theorem Keyed.own {t j : String} (h : Keyed T s) (hj : isUuidHex j = true) {e : Entry Blob}
    (he : s.lookup (jobKey t j) = some e) : ∃ job, e.value = .str (.job job) ∧ job.tenantId = t ∧ job.jobId = j := by
  have hok := h _ e he
  generalize hk : jobKey t j = k, hv : e.value = v at hok
  cases hok with
  | record _ hid =>
    obtain ⟨rfl, rfl⟩ := jobKey_inj (isUuidHex_no_colon hj) (isUuidHex_no_colon hid) hk
    exact ⟨_, rfl, rfl, rfl⟩
  | attempts _ _ => exact absurd hk (jobKey_ne_attemptsKey hj)
  | shared => exact absurd hk jobKey_ne_ragjobs
  | payload => exact absurd hk jobKey_ne_payloadKey

end Keyed

/-! ### The global keys -/

/-- The kind of value that a global key is for. -/
structure GlobalOk (k : String) (v : Value Blob) : Prop where
  deadLetters : k = dlqKey → ∃ l, v = .list l ∧ ∀ b ∈ l, ∃ job, b = .job job
  stats : k = statsKey → ∃ h, v = .hash h
  sequence : k = sequenceKey → ∃ n, v = .str (.int n)

/-- The global keys hold what they are for, and do not expire. -/
def Intact (s : Store Blob) : Prop :=
  ∀ k ∈ globalKeys, ∀ e, s.lookup k = some e → e.expiresAt = none ∧ GlobalOk k e.value

section Intact
variable {s : Store Blob} {now : Nat}

theorem Intact.exec {c : Cmd Blob} (h : Intact s) (hc : ∀ k ∈ c.writes, k ∉ globalKeys) :
    Intact (Redis.exec now c s).2 :=
  fun k hk e he => h k hk e (exec_frame (fun hw => hc k hw hk) ▸ he)

theorem Intact.execAll {cs : List (Cmd Blob)} (h : Intact s) (hc : ∀ c ∈ cs, ∀ k ∈ c.writes, k ∉ globalKeys) :
    Intact (Redis.execAll now cs s).2 := by
  induction cs generalizing s with
  | nil => exact h
  | cons c cs ih =>
    exact ih (h.exec (hc c List.mem_cons_self)) fun c' hc' => hc c' (List.mem_cons_of_mem _ hc')

/-- A global key that is only modified as a value of its kind. -/
theorem Intact.modify {k : String} {f : Option (Value Blob) → Option (Value Blob × Redis.Reply Blob)} (h : Intact s)
    (hf : ∀ o v r, (∀ v₀, o = some v₀ → GlobalOk k v₀) → f o = some (v, r) → GlobalOk k v) :
    Intact (Redis.modify now s k f).2 := by
  intro k' hk' e he
  by_cases hkk : k' = k
  · subst hkk
    rcases modify_lookup he with he | ⟨⟨r, hv⟩, hex⟩
    · exact h k' hk' e he
    · refine ⟨?_, hf _ _ r (fun v₀ hv₀ => ?_) hv⟩
      · rw [hex, Option.bind_eq_none_iff]
        exact fun e₀ he₀ => (h k' hk' e₀ (lookup_of_live? he₀)).1
      · obtain ⟨e₀, he₀, rfl⟩ := lookup_of_value? hv₀
        exact (h k' hk' e₀ he₀).2
  · exact h k' hk' e (modify_frame hkk ▸ he)

theorem Intact.incr (h : Intact s) : Intact (Redis.exec now (.incr sequenceKey) s).2 := by
  refine h.modify fun o v r ho hv => ?_
  have : ∃ n, v = .str (.int n) := by
    cases o with
    | none =>
      cases hv
      exact ⟨_, rfl⟩
    | some v₀ =>
      obtain ⟨n, rfl⟩ := (ho v₀ rfl).sequence rfl
      cases hv
      exact ⟨_, rfl⟩
  exact ⟨fun hk => absurd hk (by decide), fun hk => absurd hk (by decide), fun _ => this⟩

theorem Intact.onStats (h : Intact s)
    {f : (AList fun _ : String => Blob) → Option ((AList fun _ : String => Blob) × Redis.Reply Blob)} :
    Intact (onHash now s statsKey f).2 := by
  refine h.modify fun o v r ho hv => ?_
  have : ∃ h, v = .hash h := by
    cases o with
    | none =>
      obtain ⟨_, -, ho⟩ := Option.map_eq_some_iff.mp hv
      cases ho
      exact ⟨_, rfl⟩
    | some v₀ =>
      obtain ⟨_, rfl⟩ := (ho v₀ rfl).stats rfl
      obtain ⟨_, -, ho⟩ := Option.map_eq_some_iff.mp hv
      cases ho
      exact ⟨_, rfl⟩
  exact ⟨fun hk => absurd hk (by decide), fun _ => this, fun hk => absurd hk (by decide)⟩

theorem Intact.onDeadLetters (h : Intact s) {f : List Blob → List Blob × Redis.Reply Blob}
    (hf : ∀ l, (∀ b ∈ l, ∃ job, b = .job job) → ∀ b ∈ (f l).1, ∃ job, b = .job job) :
    Intact (onList now s dlqKey f).2 := by
  refine h.modify fun o v r ho hv => ?_
  have : ∃ l, v = .list l ∧ ∀ b ∈ l, ∃ job, b = .job job := by
    cases o with
    | none =>
      cases hv
      exact ⟨_, rfl, hf [] (List.forall_mem_nil _)⟩
    | some v₀ =>
      obtain ⟨l, rfl, hl⟩ := (ho v₀ rfl).deadLetters rfl
      cases hv
      exact ⟨_, rfl, hf l hl⟩
  exact ⟨fun _ => this, fun hk => absurd hk (by decide), fun hk => absurd hk (by decide)⟩

theorem Intact.lpush {job : IngestJob} (h : Intact s) : Intact (Redis.exec now (.lpush dlqKey (.job job)) s).2 := by
  simp only [Redis.exec]
  exact h.onDeadLetters fun l hl => List.forall_mem_cons.mpr ⟨⟨job, rfl⟩, hl⟩

theorem Intact.ltrim {stop : Int} (h : Intact s) : Intact (Redis.exec now (.ltrim dlqKey 0 stop) s).2 := by
  simp only [Redis.exec]
  exact h.onDeadLetters fun l hl b hb => hl b (mem_of_mem_slice hb)

theorem Intact.save {jobs : JobStore} {job : IngestJob} {n : Int} (h : Intact s)
    (ht : job.tenantId ∉ reservedTenants) : Intact (Redis.execAll now (jobs.saveCmds job n) s).2 := by
  have hi : indexKey job.tenantId ∉ globalKeys := mt indexKey_mem_globalKeys.mp ht
  refine h.execAll fun c hc k hk => ?_
  simp only [JobStore.saveCmds, List.mem_cons, List.not_mem_nil, or_false] at hc
  rcases hc with rfl | rfl | rfl <;> obtain rfl := List.mem_singleton.mp hk
  · exact jobKey_not_global
  · exact hi
  · exact hi

end Intact

/-! ### Every run -/

section Run
variable {service : IngestionJobService} {T : String → Prop}

/-- Only calls of the tenants `T` are started. -/
def Starts (T : String → Prop) (_ : Pool service) : (system service).Act → Prop
  | .start _ c => T c.tenant
  | _ => True

/-- What every run of the calls of the tenants `T` keeps. -/
structure KeyInv (T : String → Prop) (s : State) (Γ : Nat → Option (Call × Unit)) : Prop where
  keyed : Keyed T s.store
  sent : ∀ t j p, (t, j, p) ∈ s.messages → T t ∧ isUuidHex j = true
  tenants : ∀ i c g, Γ i = some (c, g) → T c.tenant
  running : ∀ i t j p g, Γ i = some (.execute t j p, g) → (t, j, p) ∈ s.messages
  intact : (∀ t, T t → t ∉ reservedTenants) → Intact s.store

theorem KeyInv.empty : KeyInv T {} fun _ => none where
  keyed := fun _ _ h => nomatch h
  sent := fun _ _ _ h => nomatch h
  tenants := fun _ _ _ h => nomatch h
  running := fun _ _ _ _ _ h => nomatch h
  intact := fun _ _ _ _ h => nomatch h

variable {s s' : State} {Γ : Nat → Option (Call × Unit)} {i : Nat} {ch : Choice}

theorem KeyInv.board (h : KeyInv T s Γ) {x : Option (Call × Unit)}
    (hx : ∀ c g, x = some (c, g) → T c.tenant ∧ ∀ t j p, c = .execute t j p → (t, j, p) ∈ s.messages) :
    KeyInv T s (Function.update Γ i x) where
  keyed := h.keyed
  sent := h.sent
  tenants i' c g hi' := by
    by_cases hii : i' = i
    · subst hii
      rw [Function.update_self] at hi'
      exact (hx c g hi').1
    · rw [Function.update_of_ne hii] at hi'
      exact h.tenants i' c g hi'
  running i' t j p g hi' := by
    by_cases hii : i' = i
    · subst hii
      rw [Function.update_self] at hi'
      exact (hx _ g hi').2 t j p rfl
    · rw [Function.update_of_ne hii] at hi'
      exact h.running i' t j p g hi'
  intact := h.intact

theorem KeyInv.store (h : KeyInv T s Γ) (hrest : SameRest s s') (hk : Keyed T s'.store)
    (hi : (∀ t, T t → t ∉ reservedTenants) → Intact s'.store) : KeyInv T s' Γ where
  keyed := hk
  sent t j p hm := h.sent t j p (hrest.messages ▸ hm)
  tenants := h.tenants
  running i t j p g hΓ := hrest.messages ▸ h.running i t j p g hΓ
  intact := hi

/-- A command on keys that may hold anything. -/
theorem KeyInv.redis {c : Cmd Blob} {r : Except Exn (Op.Reply (.redis c))} (h : KeyInv T s Γ)
    (hex : exec (.redis c) ch s = some (r, s')) (hk : ∀ k ∈ c.writes, ∀ v, KeyOk T k v)
    (hi : Intact s.store → Intact (Redis.exec s.now c s.store).2) : KeyInv T s' Γ := by
  obtain ⟨hrest, hs | hs⟩ := exec_redis hex
  · exact h.store hrest (hs ▸ h.keyed) fun hT => hs ▸ h.intact hT
  · exact h.store hrest (hs ▸ h.keyed.exec hk) fun hT => hs ▸ hi (h.intact hT)

theorem KeyInv.multi {cs : List (Cmd Blob)} {r : Except Exn (Op.Reply (.multi cs))} (h : KeyInv T s Γ)
    (hex : exec (.multi cs) ch s = some (r, s')) (hk : Keyed T s.store → Keyed T (Redis.execAll s.now cs s.store).2)
    (hi : (∀ t, T t → t ∉ reservedTenants) → Intact s.store → Intact (Redis.execAll s.now cs s.store).2) :
    KeyInv T s' Γ := by
  obtain ⟨hrest, hs | hs⟩ := exec_multi hex
  · exact h.store hrest (hs ▸ h.keyed) fun hT => hs ▸ h.intact hT
  · exact h.store hrest (hs ▸ hk h.keyed) fun hT => hs ▸ hi hT (h.intact hT)

/-- One operation of a tenant's call. -/
theorem KeyInv.step {t : String} {e : Op} {r : Except Exn e.Reply} (h : KeyInv T s Γ) (ht : T t)
    (he : e.By service t) (hex : exec e ch s = some (r, s')) : KeyInv T s' Γ := by
  cases he with
  | payload hw =>
    refine h.redis hex (fun k hk v => hw k hk ▸ .payload) fun hi => hi.exec fun k hk => ?_
    exact hw k hk ▸ payloadKey_not_global
  | sequence => exact h.redis hex (fun k hk v => List.mem_singleton.mp hk ▸ .shared (x := "seq")) Intact.incr
  | count => exact h.redis hex (fun k hk v => List.mem_singleton.mp hk ▸ .shared (x := "stats")) fun hi => hi.onStats
  | duration =>
    exact h.redis hex (fun k hk v => List.mem_singleton.mp hk ▸ .shared (x := "stats")) fun hi => hi.onStats
  | save hjt hj => exact h.multi hex (fun hk => hk.save (hjt ▸ ht) hj) fun hT hi => hi.save (hjt ▸ hT t ht)
  | attempt hj =>
    refine h.multi hex (fun hk => hk.execAll fun c hc k hw v => ?_) fun _ hi => hi.execAll fun c hc k hw => ?_ <;>
      simp only [List.mem_cons, List.not_mem_nil, or_false] at hc <;>
      rcases hc with rfl | rfl <;> obtain rfl := List.mem_singleton.mp hw
    · exact .attempts ht hj
    · exact .attempts ht hj
    · exact attemptsKey_eq ▸ jobKey_not_global
    · exact attemptsKey_eq ▸ jobKey_not_global
  | push =>
    refine h.multi hex (fun hk => hk.execAll fun c hc k hw v => ?_) fun _ hi => hi.lpush.ltrim
    simp only [List.mem_cons, List.not_mem_nil, or_false] at hc
    rcases hc with rfl | rfl <;> obtain rfl := List.mem_singleton.mp hw <;> exact .shared (x := "dlq")
  | enqueue hjt hj =>
    rcases exec_enqueue hex with rfl | rfl
    · exact h
    · refine ⟨h.keyed, fun t' j' p' hm => ?_, h.tenants, fun i t' j' p' g hi =>
        List.mem_cons_of_mem _ (h.running i t' j' p' g hi), h.intact⟩
      rcases List.mem_cons.mp hm with heq | hm
      · cases heq
        exact ⟨hjt ▸ ht, hj⟩
      · exact h.sent t' j' p' hm
  | uuid =>
    obtain ⟨u, rfl, hu, -, rfl⟩ := exec_uuid hex
    exact ⟨h.keyed, h.sent, h.tenants, h.running, h.intact⟩
  | utcnow =>
    cases ch <;> simp only [exec, Option.some.injEq, Prod.mk.injEq, reduceCtorEq] at hex
    exact hex.2 ▸ h
  | perfCounter =>
    cases ch <;> simp only [exec, Option.some.injEq, Prod.mk.injEq, reduceCtorEq] at hex
    exact hex.2 ▸ h
  | ingest =>
    cases ch <;> simp only [exec, Option.some.injEq, Prod.mk.injEq, reduceCtorEq] at hex <;> exact hex.2 ▸ h

/-- The answers are those that the monitor expects. -/
theorem KeyInv.answer {t j : String} {e : Op} {r : Except Exn e.Reply} (h : KeyInv T s Γ) (hj : isUuidHex j = true) (hex : exec e ch s = some (r, s')) :
    (keyMonitor service t j).next () e r () := by
  refine ⟨?_, fun id hid => ?_⟩
  · rintro rfl job hl
    obtain ⟨x, hx, hv⟩ := exec_get hex hl
    obtain ⟨job', hv', hjob⟩ := h.keyed.own hj (lookup_of_live? hx)
    rw [hv] at hv'
    cases hv'
    exact hjob
  · unfold Op.drew at hid
    split at hid
    · cases hid
      obtain ⟨u, hu, hhex, -⟩ := exec_uuid hex
      cases hu
      exact hhex
    · cases hid

/-- No run of the tenants `T` stores anything under a wrong key, or, while no tenant has a reserved name,
    changes what a global key is. -/
theorem keyRules : Rules (keyWatch service) (Starts T) (fun s _ Γ => KeyInv T s Γ) where
  start {w Γ i c} _ h _ hadm hP := by
    refine h.board fun c' g' heq => ?_
    cases heq
    refine ⟨hP, fun t j p hc => ?_⟩
    subst hc
    exact of_decide_eq_true hadm
  op {w Γ i ch c g e r s} _ h hi _ hmay hex _ := by
    have ht : T c.tenant := h.tenants i c g hi
    have hi' : Function.update Γ i (some (c, ())) = Γ := by
      rw [show () = g from rfl, ← hi, Function.update_eq_self]
    cases c with
    | submit t u q =>
      have hu : isUuidHex "00000000000000000000000000000000" = true := by decide
      exact ⟨(), h.answer hu hex, by rw [hi']; exact h.step ht (hmay hu) hex⟩
    | execute t j p =>
      have hu : isUuidHex j = true := (h.sent t j p (h.running i t j p g hi)).2
      exact ⟨(), h.answer hu hex, by rw [hi']; exact h.step ht (hmay hu) hex⟩
  ended h _ _ := h.board fun _ _ heq => by cases heq
  kill _ h _ _ _ := h.board fun _ _ heq => by cases heq
  env {w Γ b s} _ h hs _ := by
    obtain rfl := Option.some.inj hs
    exact ⟨h.keyed, h.sent, h.tenants, h.running, h.intact⟩

theorem keyed_of_reaches {w : Pool service} (h : World.Reaches (Starts T) (emptyPool service) w) :
    Keyed T w.state.store ∧ ((∀ t, T t → t ∉ reservedTenants) → Intact w.state.store) := by
  obtain ⟨Γ, -, hJ⟩ := keyRules.reaches keyWatch_sound h ⟨fun _ => none, fun _ => rfl, KeyInv.empty⟩
  exact ⟨hJ.keyed, hJ.intact⟩

end Run
end NexusGate.Workers
