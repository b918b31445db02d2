import NexusGate.Cache.History
import NexusGate.Redis.Recency
import NexusGate.Theorems.Cache.Isolation

/-! # What a namespace holds

In a history without purges: the newest entries, each as long as it lives. The sorted set lists the newest of them, maybe with
some at its end whose time is up. -/

namespace NexusGate.Cache
open Async Redis Gateway

variable {cache : SemanticCache} {ns : String} {now : Nat} {s t : Store Blob} {l : List Deposit} {x : Deposit}

/-- A member of the sorted set. -/
def Deposit.member (x : Deposit) : String × ℚ := (x.id, x.time)

/-- Deposits in the order of a history, the newest first. -/
structure Ordered (l : List Deposit) : Prop where
  times : l.Pairwise fun x y => y.time < x.time
  ids : (l.map Deposit.id).Nodup
  started : ∀ x ∈ l, 0 ≤ x.time

namespace Ordered

theorem sublist {l' : List Deposit} (h : Ordered l) (hsub : l'.Sublist l) : Ordered l' :=
  ⟨h.times.sublist hsub, h.ids.sublist (hsub.map _), fun x hx => h.started x (hsub.subset hx)⟩

theorem members (h : Ordered l) : (l.map Deposit.member).Pairwise fun x y => y.2 < x.2 := List.pairwise_map.mpr h.times

theorem names (h : Ordered l) : ((l.map Deposit.member).map Prod.fst).Nodup := by
  rw [List.map_map]
  exact h.ids

end Ordered

theorem millis_mono {p q : ℚ} (h : p ≤ q) : millis p ≤ millis q := Nat.floor_mono (by linarith)

namespace Deposit

theorem deadline_mono {y : Deposit} (h : x.time ≤ y.time) : x.deadline cache ≤ y.deadline cache := by
  have := millis_mono h
  simp only [deadline, Redis.deadline]
  omega

theorem live_iff : x.live cache now = true ↔ now < x.deadline cache := decide_eq_true_iff

/-- An entry lives no longer than its time to live. -/
theorem young {time : ℚ} (h : x.live cache (millis time) = true) (hx : 0 ≤ x.time) : time - x.time < cache.ttl := by
  have hfloor : millis time < millis x.time + 1000 * cache.ttl := live_iff.mp h
  have hlt : 1000 * time < (millis x.time + 1000 * cache.ttl : Nat) := Nat.lt_of_floor_lt hfloor
  have hle : (millis x.time : ℚ) ≤ 1000 * x.time := Nat.floor_le (by linarith)
  push_cast at hlt
  linarith

end Deposit

/-- The live ones come before the others. -/
theorem Ordered.live (h : Ordered l) : l.Pairwise fun x y => y.live cache now = true → x.live cache now = true :=
  h.times.imp fun hlt hy => Deposit.live_iff.mpr (lt_of_lt_of_le (Deposit.live_iff.mp hy) (Deposit.deadline_mono hlt.le))

/-- A namespace after the deposits `l`: their hashes, and the sorted set of the newest. -/
structure Filed (cache : SemanticCache) (ns : String) (now : Nat) (s : Store Blob) (l : List Deposit) : Prop where
  hashes : ∀ id e, s.lookup (entryKey ns id) = some e → ∃ x ∈ l, x.id = id ∧ e = x.entry cache ns ∧
    (x.live cache now = true → x ∈ l.take cache.maxEntries)
  kept : ∀ x ∈ l.take cache.maxEntries, s.lookup (entryKey ns x.id) = some (x.entry cache ns)
  ranked : ∃ n ≤ cache.maxEntries, Ranks now s (zsetKey ns) ((l.take n).map Deposit.member) ∧
    ∀ x ∈ l.take cache.maxEntries, x.live cache now = true → x ∈ l.take n
  lasting : ∀ e, s.lookup (zsetKey ns) = some e → ∃ d, e.expiresAt = some d ∧ ∀ x ∈ l, x.deadline cache ≤ d

namespace Filed

theorem empty : Filed cache ns now ∅ [] where
  hashes _ _ h := nomatch h
  kept _ h := by simp at h
  ranked := ⟨0, Nat.zero_le _, ranks_of_absent rfl, fun _ h => by simp at h⟩
  lasting _ h := nomatch h

/-- Time goes by. -/
theorem later {now' : Nat} (h : Filed cache ns now s l) (hle : now ≤ now') : Filed cache ns now' s l where
  hashes id e he := by
    obtain ⟨x, hx, hid, hentry, hlive⟩ := h.hashes id e he
    exact ⟨x, hx, hid, hentry, fun hl => hlive (Deposit.live_iff.mpr (hle.trans_lt (Deposit.live_iff.mp hl)))⟩
  kept := h.kept
  ranked := by
    obtain ⟨n, hn, hranks, hlive⟩ := h.ranked
    rcases hranks.later hle with hsame | ⟨hgone, hnone⟩
    · exact ⟨n, hn, hsame, fun x hx hl => hlive x hx (Deposit.live_iff.mpr (hle.trans_lt (Deposit.live_iff.mp hl)))⟩
    · refine ⟨0, Nat.zero_le _, hnone, fun x hx hl => ?_⟩
      have hl' : x.live cache now = true := Deposit.live_iff.mpr (hle.trans_lt (Deposit.live_iff.mp hl))
      have hmem := hlive x hx hl'
      obtain ⟨e, he⟩ := hranks.live (List.ne_nil_of_mem (List.mem_map.mpr ⟨x, hmem, rfl⟩))
      obtain ⟨d, hd, hdeadline⟩ := h.lasting e (lookup_of_live? he)
      have hnot : e.live now' = false := by
        have := Option.filter_eq_none_iff.mp hgone e (lookup_of_live? he)
        simpa using this
      simp only [Entry.live, hd, decide_eq_false_iff_not] at hnot
      exact absurd (Deposit.live_iff.mp hl) (by have := hdeadline x (List.mem_of_mem_take hx); omega)
  lasting := h.lasting

/-- Nothing happens to the namespace. -/
theorem frame (h : Filed cache ns now s l) (hentries : ∀ id, t.lookup (entryKey ns id) = s.lookup (entryKey ns id))
    (hzset : t.lookup (zsetKey ns) = s.lookup (zsetKey ns)) : Filed cache ns now t l where
  hashes id e he := h.hashes id e (hentries id ▸ he)
  kept x hx := (hentries x.id).trans (h.kept x hx)
  ranked := by simpa only [ranks_congr hzset] using h.ranked
  lasting e he := h.lasting e (hzset ▸ he)

end Filed

/-! ### A store -/

theorem zsetKey_ne_entryKey {ns' id : String} : zsetKey ns ≠ entryKey ns' id := fun h => not_isEntry_zsetKey (h ▸ isEntry_entryKey)

theorem tenantKey_ne_entryKey {t id : String} : tenantKey t ≠ entryKey ns id := fun h =>
  not_isEntry_tenantKey (h ▸ isEntry_entryKey)

theorem tenantKey_ne_zsetKey {t : String} : tenantKey t ≠ zsetKey ns := by
  intro h
  have := congrArg (fun k : String => k.toList.take 10) h
  simp [tenantKey, zsetKey, String.toList_append] at this

/-- The commands of a transaction: the hash, the sorted set and the tenant's set. -/
theorem storeCmds_eq {t id : String} {vec : Vec} {d : CachedCompletion} {time : ℚ} :
    cache.storeCmds t ns id vec d time =
      [.hset (entryKey ns id) [("ns", .text ns), ("vec", .vec vec), ("payload", .completion d), ("created", .num time)],
        .expire (entryKey ns id) cache.ttl] ++
      (record (zsetKey ns) cache.ttl cache.maxEntries id time ++
        [.sadd (tenantKey t) [ns], .expire (tenantKey t) cache.ttl]) := rfl

theorem record_writes {k : String} {ttl m : Nat} {id : String} {time : ℚ} {c : Cmd Blob} (hc : c ∈ record k ttl m id time) :
    ∀ k' ∈ c.writes, k' = k := by
  simp only [record, List.mem_cons, List.not_mem_nil, or_false] at hc
  rcases hc with rfl | rfl | rfl | rfl | rfl <;> simp [Cmd.writes]

/-- The tenant's keys hold sets. -/
def Tagged (s : Store Blob) : Prop := ∀ t e, s.lookup (tenantKey t) = some e → ∃ m, e.value = .set m

theorem Tagged.frame (h : Tagged s) (hkeys : ∀ tenant, t.lookup (tenantKey tenant) = s.lookup (tenantKey tenant)) : Tagged t :=
  fun tenant e he => h tenant e (hkeys tenant ▸ he)

theorem exec_sadd_int {k m : String} (h : ∀ v, value? now s k = some v → ∃ old, v = .set old) :
    ∃ n, (Redis.exec now (.sadd k [m]) s).1 = .int n := by
  cases hv : value? now s k with
  | none => exact ⟨_, (modify_value (v := .set [m].dedup) (by rw [hv])).1⟩
  | some v =>
    obtain ⟨old, rfl⟩ := h v hv
    exact ⟨_, (modify_value (v := .set (old ∪ [m])) (by rw [hv])).1⟩

variable (cache ns now) in
/-- The sets of the transaction: nothing fails, and only the tenant's set is written. -/
theorem tag_tagged (h : Tagged s) (tenant : String) :
    (∃ a b, (execAll now [.sadd (tenantKey tenant) [ns], .expire (tenantKey tenant) cache.ttl] s).1 = [.int a, .int b]) ∧
      Tagged (execAll now [.sadd (tenantKey tenant) [ns], .expire (tenantKey tenant) cache.ttl] s).2 := by
  have hset : ∀ v, value? now s (tenantKey tenant) = some v → ∃ old, v = .set old := by
    intro v hv
    obtain ⟨e, he, rfl⟩ := lookup_of_value? hv
    exact h tenant e he
  obtain ⟨members, hadd, -, -⟩ := exec_sadd_set (m := ns) hset
  obtain ⟨a, ha⟩ := exec_sadd_int hset
  obtain ⟨b, hb⟩ := @exec_expire_int Blob _ now cache.ttl (Redis.exec now (.sadd (tenantKey tenant) [ns]) s).2 (tenantKey tenant)
  refine ⟨⟨a, b, by rw [execAll_cons_fst, execAll_cons_fst, ha, hb]; rfl⟩, fun tenant' e he => ?_⟩
  rw [execAll_cons_snd, execAll_cons_snd] at he
  change (Redis.exec now (.expire (tenantKey tenant) cache.ttl) _).2.lookup (tenantKey tenant') = some e at he
  by_cases hk : tenantKey tenant' = tenantKey tenant
  · rw [hk] at he
    obtain ⟨e₀, he₀, hvalue⟩ := exec_expire_value he
    rw [hadd, AList.lookup_insert] at he₀
    cases he₀
    exact ⟨members, hvalue⟩
  · rw [exec_frame (by simpa [Cmd.writes] using hk), exec_frame (by simpa [Cmd.writes] using hk)] at he
    exact h tenant' e he

/-- The deposits that are not too old. -/
def unexpired (cache : SemanticCache) (time : ℚ) (l : List Deposit) : List Deposit := l.filter fun x => time - cache.ttl < x.time

theorem unaged_members {time : ℚ} : unaged cache.ttl time (l.map Deposit.member) = (unexpired cache time l).map Deposit.member := by
  rw [unaged, List.filter_map]
  rfl

/-- A deposit as it is made. -/
structure Fresh (now : Nat) (s : Store Blob) (l : List Deposit) (x : Deposit) : Prop where
  ordered : Ordered (x :: l)
  time : millis x.time = now
  unused : s.lookup (entryKey ns x.id) = none

/-- Keys that a transaction does not name. -/
theorem storeCmds_frame {tenant id k : String} {vec : Vec} {d : CachedCompletion} {time : ℚ} (hentry : k ≠ entryKey ns id)
    (hzset : k ≠ zsetKey ns) (htenant : k ≠ tenantKey tenant) :
    (execAll now (cache.storeCmds tenant ns id vec d time) s).2.lookup k = s.lookup k :=
  execAll_frame fun _ hc hk => by
    rcases storeCmds_writes hc hk with h | h | h
    · exact hentry h
    · exact hzset h
    · exact htenant h

variable (cache) in
/-- The hash of a new entry. -/
theorem file_entry (hunused : s.lookup (entryKey ns x.id) = none) (htime : millis x.time = now) :
    (∃ a, (execAll now [.hset (entryKey ns x.id) [("ns", .text ns), ("vec", .vec x.vec), ("payload", .completion x.completion),
        ("created", .num x.time)], .expire (entryKey ns x.id) cache.ttl] s).1 = [.ok, .int a]) ∧
      (execAll now [.hset (entryKey ns x.id) [("ns", .text ns), ("vec", .vec x.vec), ("payload", .completion x.completion),
        ("created", .num x.time)], .expire (entryKey ns x.id) cache.ttl] s).2.lookup (entryKey ns x.id) =
          some (x.entry cache ns) := by
  have hnone : live? now s (entryKey ns x.id) = none := by rw [live?, hunused]; rfl
  have hvalue : value? now s (entryKey ns x.id) = none := by rw [value?, hnone]; rfl
  have hset : (Redis.exec now (.hset (entryKey ns x.id) [("ns", .text ns), ("vec", .vec x.vec), ("payload", .completion x.completion),
      ("created", .num x.time)]) s).2 = s.insert (entryKey ns x.id) ⟨(x.entry cache ns).value, none⟩ := by
    rw [exec_hset_hash (by simp) (Or.inl ⟨hvalue, rfl⟩), hnone]
    rfl
  obtain ⟨a, ha⟩ := @exec_expire_int Blob _ now cache.ttl (Redis.exec now (.hset (entryKey ns x.id) [("ns", .text ns),
    ("vec", .vec x.vec), ("payload", .completion x.completion), ("created", .num x.time)]) s).2 (entryKey ns x.id)
  refine ⟨⟨a, ?_⟩, ?_⟩
  · rw [execAll_cons_fst, execAll_cons_fst, ha]
    congr 1
    exact (onHash_hash (hash?_of_absent hnone) rfl).1
  · rw [execAll_cons_snd, execAll_cons_snd, hset, exec_expire_live (live?_insert rfl)]
    exact (AList.lookup_insert _).trans (by rw [Deposit.entry, Deposit.deadline, htime])

/-- What the transaction of a deposit answers and leaves: of the listed entries, the ones that are neither too old nor too many. -/
theorem Filed.transaction (h : Filed cache ns now s l) (htag : Tagged s) (hx : Ordered (x :: l)) (htime : millis x.time = now)
    (tenant : String) : ∃ n ≤ cache.maxEntries, (∀ y ∈ l.take cache.maxEntries, y.live cache now = true → y ∈ l.take n) ∧
      ((execAll now (cache.storeCmds tenant ns x.id x.vec x.completion x.time) s).1.any Reply.failed = false ∧
        (execAll now (cache.storeCmds tenant ns x.id x.vec x.completion x.time) s).1.getD 4 .error =
          .strings (((unexpired cache x.time (x :: l.take n)).drop cache.maxEntries).map Deposit.id).reverse) ∧
      (execAll now (cache.storeCmds tenant ns x.id x.vec x.completion x.time) s).2.lookup (entryKey ns x.id) =
        some (x.entry cache ns) ∧
      Ranks now (execAll now (cache.storeCmds tenant ns x.id x.vec x.completion x.time) s).2 (zsetKey ns)
        (((unexpired cache x.time (x :: l.take n)).take cache.maxEntries).map Deposit.member) ∧
      (∀ e, (execAll now (cache.storeCmds tenant ns x.id x.vec x.completion x.time) s).2.lookup (zsetKey ns) = some e →
        e.expiresAt = some (x.deadline cache)) ∧
      Tagged (execAll now (cache.storeCmds tenant ns x.id x.vec x.completion x.time) s).2 := by
  have hunused : s.lookup (entryKey ns x.id) = none := by
    refine Option.eq_none_iff_forall_ne_some.mpr fun e he => ?_
    obtain ⟨y, hy, hid, -⟩ := h.hashes x.id e he
    exact (List.nodup_cons.mp hx.ids).1 (List.mem_map.mpr ⟨y, hy, hid⟩)
  obtain ⟨n, hn, hranks, hlive⟩ := h.ranked
  have hx' : Ordered (x :: l.take n) := hx.sublist ((List.take_sublist n l).cons_cons x)
  refine ⟨n, hn, hlive, ?_⟩
  rw [storeCmds_eq, execAll_append_fst, execAll_append_fst, execAll_append, execAll_append]
  obtain ⟨⟨a, hentry⟩, hhash⟩ := file_entry cache hunused htime
  have hfirst : ∀ k, k ≠ entryKey ns x.id → (execAll now [.hset (entryKey ns x.id) [("ns", .text ns), ("vec", .vec x.vec),
      ("payload", .completion x.completion), ("created", .num x.time)], .expire (entryKey ns x.id) cache.ttl] s).2.lookup k =
        s.lookup k := fun k hk => execAll_frame fun c hc hwrites => by
    simp only [List.mem_cons, List.not_mem_nil, or_false] at hc
    rcases hc with rfl | rfl <;> exact hk (List.mem_singleton.mp hwrites)
  generalize execAll now [.hset (entryKey ns x.id) [("ns", .text ns), ("vec", .vec x.vec), ("payload", .completion x.completion),
    ("created", .num x.time)], .expire (entryKey ns x.id) cache.ttl] s = o at hentry hhash hfirst ⊢
  obtain ⟨replies, s₂⟩ := o
  have hranks₂ : Ranks now s₂ (zsetKey ns) ((l.take n).map Deposit.member) :=
    (ranks_congr (hfirst _ zsetKey_ne_entryKey)).mpr hranks
  obtain ⟨⟨b, c, d, e, hrecord⟩, hranks₃, hexpires⟩ := @record_ranks _ _ now s₂ (zsetKey ns) _
    cache.ttl cache.maxEntries x.id x.time hranks₂ (List.nodup_cons.mp hx'.names).1 hx'.members hx'.names
  have hsecond : ∀ k, k ≠ zsetKey ns →
      (execAll now (record (zsetKey ns) cache.ttl cache.maxEntries x.id x.time) s₂).2.lookup k = s₂.lookup k := fun k hk => execAll_frame fun c hc hwrites => hk (record_writes hc k hwrites)
  have htag₃ := htag.frame fun t' => (hsecond _ tenantKey_ne_zsetKey).trans (hfirst _ tenantKey_ne_entryKey)
  change (execAll now (record (zsetKey ns) cache.ttl cache.maxEntries x.id x.time) s₂).1 = _ at hrecord
  generalize execAll now (record (zsetKey ns) cache.ttl cache.maxEntries x.id x.time) s₂ = o
    at hrecord hranks₃ hexpires hsecond htag₃ ⊢
  obtain ⟨replies', s₃⟩ := o
  obtain ⟨⟨f, g, htagged⟩, htag₄⟩ := tag_tagged cache ns now htag₃ tenant
  have hthird : ∀ k, k ≠ tenantKey tenant → (execAll now [.sadd (tenantKey tenant) [ns], .expire (tenantKey tenant) cache.ttl]
      s₃).2.lookup k = s₃.lookup k := fun k hk => execAll_frame fun c hc hwrites => by
    simp only [List.mem_cons, List.not_mem_nil, or_false] at hc
    rcases hc with rfl | rfl <;> exact hk (List.mem_singleton.mp hwrites)
  have hlist : unaged cache.ttl x.time ((x.id, x.time) :: (l.take n).map Deposit.member) =
      (unexpired cache x.time (x :: l.take n)).map Deposit.member :=
    unaged_members (l := x :: l.take n)
  rw [hlist] at hrecord hranks₃
  subst hrecord hentry
  rw [htagged]
  refine ⟨⟨rfl, ?_⟩, ?_, ?_, fun e he => ?_, htag₄⟩
  · rw [List.map_drop, List.map_drop]
    simp [List.map_map, Function.comp_def, Deposit.member]
  · rw [hthird _ tenantKey_ne_entryKey.symm, hsecond _ zsetKey_ne_entryKey.symm, hhash]
  · rw [List.map_take]
    exact (ranks_congr (hthird _ tenantKey_ne_zsetKey.symm)).mpr hranks₃
  · rw [hthird _ tenantKey_ne_zsetKey.symm] at he
    rw [hexpires e he, Deposit.deadline, htime]

variable (cache) in
theorem unexpired_take (time : ℚ) (h : Ordered (x :: l)) (n : Nat) :
    ∃ k, unexpired cache time (x :: l.take n) = (x :: l).take k := by
  have hfirst : x :: l.take n = (x :: l).take (n + 1) := rfl
  obtain ⟨k, -, hk⟩ := filter_eq_take (p := fun y : Deposit => time - cache.ttl < y.time)
    ((h.times.sublist ((List.take_sublist n l).cons_cons x)).imp fun hlt hy => by
      simp only [decide_eq_true_eq] at hy ⊢
      exact hy.trans hlt)
  exact ⟨min k (n + 1), by rw [unexpired, hk, hfirst, List.take_take]⟩

theorem mem_take_min {y : Deposit} {j k : Nat} (hj : y ∈ l.take j) (hk : y ∈ l.take k) : y ∈ l.take (min j k) := by
  rcases Nat.le_total j k with hle | hle
  · rwa [Nat.min_eq_left hle]
  · rwa [Nat.min_eq_right hle]

theorem erase_frame {ids : List String} {k : String} (hk : ∀ id, k ≠ entryKey ns id) :
    ((ids.map (entryKey ns)).foldl (fun s k => s.erase k) s).lookup k = s.lookup k :=
  lookup_eraseAll fun hmem => by
    obtain ⟨id, -, rfl⟩ := List.mem_map.mp hmem
    exact hk id rfl

theorem entryKey_right {id id' : String} (h : entryKey ns id = entryKey ns id') : id = id' := (String.append_right_inj _).mp h

/-- A deposit, with the deletion of what it drives out. -/
theorem Filed.deposit (h : Filed cache ns now s l) (htag : Tagged s) (hx : Ordered (x :: l)) (htime : millis x.time = now)
    (hcap : 0 < cache.maxEntries) (tenant : String) : ∃ evicted,
      ((execAll now (cache.storeCmds tenant ns x.id x.vec x.completion x.time) s).1.any Reply.failed = false ∧
        (execAll now (cache.storeCmds tenant ns x.id x.vec x.completion x.time) s).1.getD 4 .error = .strings evicted) ∧
      Filed cache ns now ((evicted.map (entryKey ns)).foldl (fun s k => s.erase k)
        (execAll now (cache.storeCmds tenant ns x.id x.vec x.completion x.time) s).2) (x :: l) ∧
      Tagged ((evicted.map (entryKey ns)).foldl (fun s k => s.erase k)
        (execAll now (cache.storeCmds tenant ns x.id x.vec x.completion x.time) s).2) := by
  obtain ⟨n, hn, hlive, hreplies, hentry, hranks, hlasting, htag'⟩ := h.transaction htag hx htime tenant
  have hframe : ∀ id, id ≠ x.id → (execAll now (cache.storeCmds tenant ns x.id x.vec x.completion x.time) s).2.lookup
      (entryKey ns id) = s.lookup (entryKey ns id) := fun id hid =>
    storeCmds_frame (fun heq => hid (entryKey_right heq)) zsetKey_ne_entryKey.symm tenantKey_ne_entryKey.symm
  generalize (execAll now (cache.storeCmds tenant ns x.id x.vec x.completion x.time) s).2 = u at *
  have hlisted : ∀ y ∈ x :: l.take cache.maxEntries, y.live cache now = true →
      y ∈ unexpired cache x.time (x :: l.take n) := by
    intro y hy hl
    have hmem : y ∈ x :: l.take n := by
      rcases List.mem_cons.mp hy with rfl | hy
      · exact List.mem_cons_self
      · exact List.mem_cons_of_mem _ (hlive y hy hl)
    have hyoung := y.young (htime ▸ hl) (hx.started y (((List.take_sublist n l).cons_cons x).subset hmem))
    exact List.mem_filter.mpr ⟨hmem, decide_eq_true (by linarith)⟩
  obtain ⟨k, hk⟩ := unexpired_take cache x.time hx n
  rw [hk] at hreplies hranks hlisted
  refine ⟨_, hreplies, ⟨fun id e he => ?_, fun y hy => ?_, ?_, fun e he => ?_⟩, ?_⟩
  · obtain ⟨hnot, he⟩ := lookup_of_eraseAll he
    by_cases hid : id = x.id
    · subst hid
      cases hentry.symm.trans he
      refine ⟨x, List.mem_cons_self, rfl, rfl, fun _ => ?_⟩
      obtain ⟨m, hm⟩ := Nat.exists_eq_succ_of_ne_zero hcap.ne'
      rw [hm]
      exact List.mem_cons_self
    · rw [hframe id hid] at he
      obtain ⟨y, hy, hyid, rfl, hkept⟩ := h.hashes id e he
      refine ⟨y, List.mem_cons_of_mem _ hy, hyid, rfl, fun hl => ?_⟩
      -- a live one that is not among the first is among those that are driven out
      have hmem := hlisted y (List.mem_cons_of_mem _ (hkept hl)) hl
      rw [← List.take_append_drop cache.maxEntries (List.take k (x :: l))] at hmem
      rcases List.mem_append.mp hmem with hmem | hmem
      · rw [List.take_take] at hmem
        exact List.take_subset_take_left _ (Nat.min_le_left _ _) hmem
      · refine absurd (List.mem_map.mpr ⟨y.id, ?_, by rw [hyid]⟩) hnot
        exact List.mem_reverse.mpr (List.mem_map.mpr ⟨y, hmem, rfl⟩)
  · have hnot : entryKey ns y.id ∉ ((((x :: l).take k).drop cache.maxEntries).map Deposit.id).reverse.map (entryKey ns) := by
      intro hmem
      obtain ⟨id, hid, heq⟩ := List.mem_map.mp hmem
      obtain rfl := entryKey_right heq
      obtain ⟨z, hz, hzid⟩ := List.mem_map.mp (List.mem_reverse.mp hid)
      rw [List.drop_take] at hz
      exact name_take hx.ids hy (hzid ▸ List.mem_map.mpr ⟨z, List.mem_of_mem_take hz, rfl⟩)
    rw [lookup_eraseAll hnot]
    have hy' : y ∈ x :: l := List.mem_of_mem_take hy
    rcases List.mem_cons.mp hy' with rfl | hl
    · exact hentry
    · have hne : y.id ≠ x.id := fun heq => (List.nodup_cons.mp hx.ids).1 (heq ▸ List.mem_map.mpr ⟨y, hl, rfl⟩)
      rw [hframe _ hne]
      refine h.kept y ?_
      obtain ⟨m, hm⟩ := Nat.exists_eq_succ_of_ne_zero hcap.ne'
      rw [hm] at hy ⊢
      rcases List.mem_cons.mp hy with rfl | hy
      · exact absurd rfl hne
      · exact List.take_subset_take_left _ (Nat.le_succ m) hy
  · refine ⟨min cache.maxEntries k, Nat.min_le_left _ _, ?_, fun y hy hl => ?_⟩
    · rw [List.take_take] at hranks
      exact (ranks_congr (erase_frame fun _ => zsetKey_ne_entryKey)).mpr hranks
    · refine mem_take_min hy (hlisted y ?_ hl)
      obtain ⟨m, hm⟩ := Nat.exists_eq_succ_of_ne_zero hcap.ne'
      rw [hm] at hy ⊢
      rcases List.mem_cons.mp hy with rfl | hy
      · exact List.mem_cons_self
      · exact List.mem_cons_of_mem _ (List.take_subset_take_left _ (Nat.le_succ m) hy)
  · rw [erase_frame fun _ => zsetKey_ne_entryKey] at he
    refine ⟨_, hlasting e he, fun y hy => ?_⟩
    rcases List.mem_cons.mp hy with rfl | hy
    · exact le_refl _
    · exact Deposit.deadline_mono ((List.pairwise_cons.mp hx.times).1 y hy).le
  · exact htag'.frame fun t' => erase_frame fun _ => tenantKey_ne_entryKey

/-! ### What a lookup finds -/

/-- A field of an entry, as long as the entry lives. -/
theorem hget_entry {f : String} {b : Blob} (h : s.lookup (entryKey ns x.id) = some (x.entry cache ns))
    (hf : ∀ fields, (x.entry cache ns).value = .hash fields → fields.lookup f = some b) :
    Redis.exec now (.hget (entryKey ns x.id) f) s = (if x.live cache now then .bulk b else .nil, s) := by
  cases hl : x.live cache now with
  | true =>
    have hvalue : value? now s (entryKey ns x.id) = some (x.entry cache ns).value := by
      rw [value?, live?_eq_some.mpr ⟨h, hl⟩]
      rfl
    simp only [Redis.exec, hvalue]
    have hfield := hf _ rfl
    simp only [Deposit.entry] at hfield ⊢
    rw [hfield]
    rfl
  | false =>
    have hvalue : value? now s (entryKey ns x.id) = none := by
      have hdead : (x.entry cache ns).live now = false := hl
      simp [value?, live?, h, Option.filter, hdead]
    simp only [Redis.exec, hvalue]
    rfl

theorem entry_vec {fields : AList fun _ : String => Blob} (h : (x.entry cache ns).value = .hash fields) :
    fields.lookup "vec" = some (.vec x.vec) := by
  cases h
  simp [AList.lookup_insert_ne]

theorem entry_payload {fields : AList fun _ : String => Blob} (h : (x.entry cache ns).value = .hash fields) :
    fields.lookup "payload" = some (.completion x.completion) := by
  cases h
  simp [AList.lookup_insert_ne]

/-- Lookups take out of the sorted set what has expired. -/
theorem Filed.prune (h : Filed cache ns now s l) (hl : Ordered l) {n : Nat} (hn : n ≤ cache.maxEntries)
    (hranks : Ranks now s (zsetKey ns) ((l.take n).map Deposit.member))
    (hlive : ∀ x ∈ l.take cache.maxEntries, x.live cache now = true → x ∈ l.take n) (hne : l.take n ≠ []) :
    Filed cache ns now
      (Redis.exec now (.zrem (zsetKey ns) (((l.take n).filter fun y => !y.live cache now).map Deposit.id)) s).2 l := by
  have hframe : ∀ k, k ≠ zsetKey ns → (Redis.exec now (.zrem (zsetKey ns) (((l.take n).filter fun y => !y.live cache now).map
      Deposit.id)) s).2.lookup k = s.lookup k := fun k hk => exec_frame (by simpa [Cmd.writes] using hk)
  have hl' : Ordered (l.take n) := hl.sublist (List.take_sublist n l)
  refine ⟨fun id e he => ?_, fun y hy => ?_, ?_, fun e he => ?_⟩
  · rw [hframe _ zsetKey_ne_entryKey.symm] at he
    exact h.hashes id e he
  · rw [hframe _ zsetKey_ne_entryKey.symm]
    exact h.kept y hy
  · obtain ⟨k, -, hk⟩ := filter_eq_take (@Ordered.live cache now _ hl')
    refine ⟨min k n, (Nat.min_le_right _ _).trans hn, ?_, fun y hy hlives => ?_⟩
    · have hfilter : (((l.take n).map Deposit.member).filter fun x => x.1 ∉ ((l.take n).filter fun y => !y.live cache now).map
          Deposit.id) = (l.take (min k n)).map Deposit.member := by
        rw [List.filter_map, ← List.take_take, ← hk]
        congr 1
        refine List.filter_congr fun y hy => ?_
        cases hlives : y.live cache now with
        | true =>
          refine decide_eq_true fun hmem => ?_
          obtain ⟨z, hz, hzid⟩ := List.mem_map.mp hmem
          obtain ⟨hz, hdead⟩ := List.mem_filter.mp hz
          obtain rfl : z = y := List.inj_on_of_nodup_map hl'.ids hz hy hzid
          rw [hlives] at hdead
          cases hdead
        | false =>
          exact decide_eq_false fun hnot => hnot (List.mem_map.mpr ⟨y, List.mem_filter.mpr ⟨hy, by rw [hlives]; rfl⟩, rfl⟩)
      exact hfilter ▸ (hranks.zrem _).2
    · rw [← List.take_take, ← hk]
      exact List.mem_filter.mpr ⟨hlive y hy hlives, hlives⟩
  · rcases modify_lookup he with he | ⟨-, hexpires⟩
    · exact h.lasting e he
    · obtain ⟨e₀, he₀⟩ := hranks.live (mt List.map_eq_nil_iff.mp hne)
      rw [he₀] at hexpires
      obtain ⟨d, hd, hdeadline⟩ := h.lasting e₀ (lookup_of_live? he₀)
      exact ⟨d, hexpires.trans hd, hdeadline⟩

/-- The live ones among the first are the live ones that are listed. -/
theorem filter_listed (hl : Ordered l) {n : Nat} (hn : n ≤ cache.maxEntries)
    (hlive : ∀ x ∈ l.take cache.maxEntries, x.live cache now = true → x ∈ l.take n) :
    (l.take n).filter (Deposit.live cache now) = (l.take cache.maxEntries).filter (Deposit.live cache now) := by
  have hsplit : l.take cache.maxEntries = l.take n ++ (l.take cache.maxEntries).drop n := by
    conv_lhs => rw [← List.take_append_drop n (l.take cache.maxEntries), List.take_take, Nat.min_eq_left hn]
  rw [hsplit, List.filter_append, List.self_eq_append_right, List.filter_eq_nil_iff]
  intro y hy hlives
  rw [List.drop_take] at hy
  have hdrop := List.mem_of_mem_take hy
  have htake : y ∈ l.take cache.maxEntries := hsplit ▸ List.mem_append_right _ (by rwa [List.drop_take])
  exact name_take hl.ids (hlive y htake hlives) (List.mem_map.mpr ⟨y, hdrop, rfl⟩)

/-! ### Answers -/

section Answers
variable {v : Visit} {s : State}

theorem answer_embed {text : String} : v.answer cache (.embed text) s = (.ok (cache.embedder text), s) := rfl

theorem answer_clock : v.answer cache .clock s = (.ok v.time, s) := rfl

theorem answer_uuid (h : isUuidHex v.uuid = true ∧ v.uuid ∉ s.drawn) :
    v.answer cache .uuid s = (.ok v.uuid, { s with drawn := v.uuid :: s.drawn }) := by
  simp [Visit.answer, Visit.choice, exec, h.1, h.2]

theorem answer_redis {c : Cmd Blob} (h : Reply.failed (Redis.exec s.now c s.store).1 = false) :
    v.answer cache (.redis c) s = (.ok (Redis.exec s.now c s.store).1, { s with store := (Redis.exec s.now c s.store).2 }.settle) := by
  simp [Visit.answer, Visit.choice, exec, h]

theorem answer_multi {cs : List (Cmd Blob)} {o : List (Redis.Reply Blob) × Store Blob} (ho : execAll s.now cs s.store = o)
    (h : o.1.any Reply.failed = false) : v.answer cache (.multi cs) s = (.ok o.1, { s with store := o.2 }.settle) := by
  simp [Visit.answer, Visit.choice, exec, ho, h]

theorem delete_ends {ks : List String} : Ends (v.answer cache) (delete ks) s fun a s' => (∃ n, a = .ok n) ∧ s'.now = s.now ∧
    s'.drawn = s.drawn ∧ s'.store = ks.foldl (fun s k => s.erase k) s.store := by
  unfold delete redis
  exact Ends.step (answer_redis rfl) ⟨⟨_, rfl⟩, rfl, rfl, rfl⟩

/-- A store, given what its transaction answers. -/
theorem store_ends {tenant : String} {r : ChatRequest} {d : CachedCompletion} {evicted : List String}
    {o : List (Redis.Reply Blob) × Store Blob}
    (hfresh : isUuidHex v.uuid = true ∧ v.uuid ∉ s.drawn)
    (ho : execAll s.now (cache.storeCmds tenant (namespaceFor cache.sha256 tenant r) v.uuid (cache.embedder r.last.content) d v.time)
      s.store = o) (hsucceeds : o.1.any Reply.failed = false) (hevicted : o.1.getD 4 .error = .strings evicted) :
    Ends (v.answer cache) (cache.store tenant r d) s fun a s' => a = .ok () ∧ s'.now = s.now ∧ s'.drawn = v.uuid :: s.drawn ∧
      s'.store = (evicted.map (entryKey (namespaceFor cache.sha256 tenant r))).foldl (fun s k => s.erase k) o.2 := by
  unfold SemanticCache.store embed uuid4 clock multi
  refine Ends.step answer_embed ?_
  refine Ends.step (answer_uuid hfresh) ?_
  refine Ends.step answer_clock ?_
  refine Ends.step (answer_multi ho hsucceeds) ?_
  rw [hevicted]
  cases evicted with
  | nil => exact ⟨rfl, rfl, rfl, rfl⟩
  | cons id ids =>
    refine delete_ends.bind (fun n s' h => ?_) fun x s' h => by cases h.1.choose_spec
    exact ⟨rfl, h.2⟩

/-- What `HGET` answers for the vector of an entry. -/
def Deposit.vecReply (cache : SemanticCache) (now : Nat) (x : Deposit) : Redis.Reply Blob :=
  if x.live cache now then .bulk (.vec x.vec) else .nil

/-- The vector itself. -/
def Deposit.vec? (cache : SemanticCache) (now : Nat) (x : Deposit) : Option Vec := if x.live cache now then some x.vec else none

theorem pipeline_ends : ∀ {ys : List Deposit} {s : State},
    (∀ y ∈ ys, s.store.lookup (entryKey ns y.id) = some (y.entry cache ns)) →
    Ends (v.answer cache) (pipeline ((ys.map Deposit.id).map fun i => .hget (entryKey ns i) "vec")) s fun a s' =>
      a = .ok (ys.map (Deposit.vecReply cache s.now)) ∧ s'.now = s.now ∧ s'.drawn = s.drawn ∧ s'.store = s.store
  | [], _, _ => ⟨rfl, rfl, rfl, rfl⟩
  | y :: ys, s, h => by
    have hget := @hget_entry cache ns s.now _ _ _ _ (h y List.mem_cons_self) fun _ => entry_vec
    have hfailed : Reply.failed (Redis.exec s.now (.hget (entryKey ns y.id) "vec") s.store).1 = false := by
      rw [hget]
      dsimp only
      split <;> rfl
    have hanswer : v.answer cache (.redis (.hget (entryKey ns y.id) "vec")) s = (.ok (y.vecReply cache s.now), s.settle) := by
      rw [answer_redis hfailed, hget]
      rfl
    rw [List.map_cons, List.map_cons, pipeline]
    refine Ends.bind (P := fun a s' => a = .ok (.ok (y.vecReply cache s.now)) ∧ s' = s.settle) ?_ ?_ nofun
    · refine Ends.attempt (Ends.call ?_)
      rw [hanswer]
      exact ⟨rfl, rfl⟩
    rintro _ s' ⟨h₁, rfl⟩
    cases h₁
    refine Ends.bind (P := fun a s' => a = .ok (.ok (ys.map (Deposit.vecReply cache s.now))) ∧ s'.now = s.now ∧
      s'.drawn = s.drawn ∧ s'.store = s.store) (Ends.attempt ?_) ?_ nofun
    · exact (@pipeline_ends ys s.settle fun z hz => h z (List.mem_cons_of_mem _ hz)).mono fun a s' ⟨ha, hsame⟩ =>
        ⟨congrArg Except.ok ha, hsame⟩
    rintro _ s' ⟨h₂, hsame⟩
    cases h₂
    exact ⟨rfl, hsame⟩

theorem vectors_ends : ∀ {ys : List Deposit} {s : State} {now : Nat},
    Ends (v.answer cache) (vectors (ys.map (Deposit.vecReply cache now))) s fun a s' =>
      a = .ok (ys.map (Deposit.vec? cache now)) ∧ s' = s
  | [], _, _ => ⟨rfl, rfl⟩
  | y :: ys, s, now => by
    rw [List.map_cons, List.map_cons, Deposit.vecReply, Deposit.vec?]
    cases y.live cache now with
    | true =>
      refine Ends.bind vectors_ends ?_ nofun
      rintro _ _ ⟨h, rfl⟩
      cases h
      exact ⟨rfl, rfl⟩
    | false =>
      refine Ends.bind vectors_ends ?_ nofun
      rintro _ _ ⟨h, rfl⟩
      cases h
      exact ⟨rfl, rfl⟩

theorem zip_live : ∀ {ys : List Deposit}, (((ys.map Deposit.id).zip (ys.map (Deposit.vec? cache now))).filterMap fun p =>
    p.2.map fun v => (p.1, v)) = (ys.filter (Deposit.live cache now)).map fun y => (y.id, y.vec)
  | [] => rfl
  | y :: ys => by
    rw [List.map_cons, List.map_cons, List.zip_cons_cons, List.filterMap_cons, zip_live, Deposit.vec?, List.filter_cons]
    cases y.live cache now <;> rfl

theorem zip_expired : ∀ {ys : List Deposit}, (((ys.map Deposit.id).zip (ys.map (Deposit.vec? cache now))).filter fun p =>
    p.2.isNone).map Prod.fst = (ys.filter fun y => !y.live cache now).map Deposit.id
  | [] => rfl
  | y :: ys => by
    rw [List.map_cons, List.map_cons, List.zip_cons_cons, List.filter_cons, List.filter_cons]
    cases hl : y.live cache now <;> simp [Deposit.vec?, hl, ← @zip_expired ys]

/-- The largest of the numbers, with what it belongs to. -/
theorem argmax_max {α : Type} : ∀ {xs : List (α × ℚ)} {x : α × ℚ}, argmax xs = some x → ∀ y ∈ xs, y.2 ≤ x.2
  | x :: xs, z, h, y, hy => by
    rw [argmax] at h
    cases hm : argmax xs with
    | none =>
      cases xs with
      | nil =>
        rw [hm] at h
        cases h
        rw [List.mem_singleton.mp hy]
      | cons x' xs =>
        rw [argmax] at hm
        split at hm
        · cases hm
        · split at hm <;> cases hm
    | some w =>
      have hrest := argmax_max hm
      rw [hm] at h
      dsimp only at h
      split at h
      · rename_i hlt
        cases h
        rcases List.mem_cons.mp hy with rfl | hy
        · exact hlt.le
        · exact hrest y hy
      · rename_i hnot
        cases h
        rcases List.mem_cons.mp hy with rfl | hy
        · exact le_refl _
        · exact (hrest y hy).trans (not_lt.mp hnot)

theorem argmax_some {α : Type} {x : α × ℚ} {xs : List (α × ℚ)} : ∃ y, argmax (x :: xs) = some y := by
  rw [argmax]
  split
  · exact ⟨_, rfl⟩
  · split <;> exact ⟨_, rfl⟩

/-- The similarity of an entry, under its key. -/
def Deposit.scored (ns : String) (vec : Vec) (x : Deposit) : String × ℚ := (entryKey ns x.id, dot x.vec vec)

theorem nearest_ends (h : Filed cache ns s.now s.store l) (hl : Ordered l) (hcap : 0 < cache.maxEntries) {vec : Vec} :
    Ends (v.answer cache) (BruteForceIndex.nearest cache.maxEntries ns vec) s fun a s' =>
      a = .ok (argmax (((l.take cache.maxEntries).filter (Deposit.live cache s.now)).map (Deposit.scored ns vec))) ∧
        (s'.now = s.now ∧ s'.drawn = s.drawn) ∧ (∀ k, k ≠ zsetKey ns → s'.store.lookup k = s.store.lookup k) ∧
        Filed cache ns s.now s'.store l := by
  obtain ⟨n, hn, hranks, hlive⟩ := h.ranked
  have hl' : Ordered (l.take n) := hl.sublist (List.take_sublist n l)
  have hrange := hranks.zrevrange hl'.members 0 (cache.maxEntries - 1)
  have hnames : slice (((l.take n).map Deposit.member).map Prod.fst) 0 (cache.maxEntries - 1) = (l.take n).map Deposit.id := by
    rw [slice_first hcap, List.map_map, List.take_of_length_le]
    · rfl
    · rw [List.length_map]
      exact (List.length_take_le n l).trans hn
  rw [hnames] at hrange
  rw [← filter_listed hl hn hlive]
  have hanswer : v.answer cache (.redis (.zrevrange (zsetKey ns) 0 (cache.maxEntries - 1))) s =
      (.ok (.strings ((l.take n).map Deposit.id)), s.settle) := by
    rw [answer_redis (by rw [hrange]; rfl), hrange]
  unfold BruteForceIndex.nearest redis
  refine Ends.step hanswer ?_
  have hprune := h.prune hl hn hranks hlive
  have hkept : ∀ y ∈ l.take n, s.store.lookup (entryKey ns y.id) = some (y.entry cache ns) := fun y hy =>
    h.kept y (List.take_subset_take_left _ hn hy)
  generalize l.take n = ys at *
  cases ys with
  | nil => exact ⟨rfl, ⟨rfl, rfl⟩, fun _ _ => rfl, h⟩
  | cons y ys =>
    refine Ends.bind (pipeline_ends (s := s.settle) hkept) ?_ nofun
    rintro _ s₁ ⟨hreplies, hnow, hdrawn, hstore⟩
    cases hreplies
    refine Ends.bind vectors_ends ?_ nofun
    rintro _ s₂ ⟨hraw, hsame⟩
    cases hraw
    obtain rfl : s₁ = s₂ := hsame.symm
    have hexpired := @zip_expired cache s.now (y :: ys)
    have hlisted := @zip_live cache s.now (y :: ys)
    dsimp only [State.settle_now, State.settle_store, State.settle_drawn] at hnow hdrawn hstore hexpired hlisted ⊢
    rw [hexpired, hlisted, List.map_map]
    by_cases hnone : ((y :: ys).filter fun y => !y.live cache s.now).map Deposit.id = []
    · rw [if_neg (not_not.mpr hnone)]
      exact Ends.ret ⟨rfl, ⟨hnow, hdrawn⟩, fun k _ => by rw [hstore], hstore ▸ h⟩
    · rw [if_pos hnone]
      have hzrem : Reply.failed (Redis.exec s.now (.zrem (zsetKey ns) (((y :: ys).filter fun y => !y.live cache s.now).map
          Deposit.id)) s.store).1 = false := by
        obtain ⟨⟨k, hk⟩, -⟩ := hranks.zrem (((y :: ys).filter fun y => !y.live cache s.now).map Deposit.id)
        rw [hk]
        rfl
      refine Ends.step (answer_redis (by rw [hnow, hstore]; exact hzrem)) ?_
      refine Ends.ret ⟨rfl, ⟨hnow, hdrawn⟩, fun k hk => ?_, ?_⟩
      · dsimp only [State.settle_store]
        rw [hnow, hstore]
        exact exec_frame (by simpa [Cmd.writes] using hk)
      · dsimp only [State.settle_store]
        rw [hnow, hstore]
        exact hprune (List.cons_ne_nil _ _)

/-- What a lookup in `ns` comes to, by the live entries there. -/
structure Found (cache : SemanticCache) (ns : String) (vec : Vec) (entries : List Deposit) (hit : Option CacheHit) : Prop where
  hits : (∃ x ∈ entries, cache.threshold ≤ dot x.vec vec) → ∃ x ∈ entries, (∀ y ∈ entries, dot y.vec vec ≤ dot x.vec vec) ∧
    hit = some ⟨x.completion, round4 (dot x.vec vec)⟩
  misses : (∀ x ∈ entries, dot x.vec vec < cache.threshold) → hit = none

theorem lookup_ends {tenant : String} {r : ChatRequest} (hindex : cache.index = .bruteForce)
    (h : Filed cache (namespaceFor cache.sha256 tenant r) s.now s.store l) (hl : Ordered l) (hcap : 0 < cache.maxEntries) :
    Ends (v.answer cache) (cache.lookup tenant r) s fun a s' =>
      (∃ hit, a = .ok hit ∧ Found cache (namespaceFor cache.sha256 tenant r) (cache.embedder r.last.content)
        ((l.take cache.maxEntries).filter (Deposit.live cache s.now)) hit) ∧
        (s'.now = s.now ∧ s'.drawn = s.drawn) ∧
        (∀ k, k ≠ zsetKey (namespaceFor cache.sha256 tenant r) → s'.store.lookup k = s.store.lookup k) ∧
        Filed cache (namespaceFor cache.sha256 tenant r) s.now s'.store l := by
  unfold SemanticCache.lookup SemanticCache.nearest embed redis
  rw [hindex]
  refine Ends.step answer_embed ?_
  refine Ends.bind (nearest_ends h hl hcap) ?_ nofun
  rintro _ s₁ ⟨hfound, ⟨hnow, hdrawn⟩, hframe, hfiled⟩
  cases hfound
  generalize hvec : cache.embedder r.last.content = vec
  generalize hns : namespaceFor cache.sha256 tenant r = ns at *
  generalize hentries : (l.take cache.maxEntries).filter (Deposit.live cache s.now) = entries
  cases entries with
  | nil =>
    exact Ends.ret ⟨⟨none, rfl, fun ⟨_, hx, _⟩ => (nomatch hx), fun _ => rfl⟩, ⟨hnow, hdrawn⟩, hframe, hfiled⟩
  | cons x xs =>
    obtain ⟨best, hbest⟩ := @argmax_some _ (x.scored ns vec) (xs.map (Deposit.scored ns vec))
    have hmax := argmax_max hbest
    obtain ⟨y, hy, rfl⟩ := List.mem_map.mp (argmax_mem hbest : _ ∈ (x :: xs).map (Deposit.scored ns vec))
    have hgreatest : ∀ z ∈ x :: xs, dot z.vec vec ≤ dot y.vec vec := fun z hz => hmax _ (List.mem_map.mpr ⟨z, hz, rfl⟩)
    rw [List.map_cons, hbest]
    dsimp only [Deposit.scored]
    by_cases hlow : dot y.vec vec < cache.threshold
    · rw [if_pos hlow]
      refine Ends.ret ⟨⟨none, rfl, fun ⟨z, hz, hle⟩ => ?_, fun _ => rfl⟩, ⟨hnow, hdrawn⟩, hframe, hfiled⟩
      exact absurd (hle.trans (hgreatest z hz)) (not_le.mpr hlow)
    · rw [if_neg hlow]
      have hmem : y ∈ l.take cache.maxEntries ∧ y.live cache s.now = true := List.mem_filter.mp (hentries ▸ hy)
      have hkept := hfiled.kept y hmem.1
      have hget : Redis.exec s₁.now (.hget (entryKey ns y.id) "payload") s₁.store =
          (.bulk (.completion y.completion), s₁.store) := by
        rw [hget_entry hkept fun _ => entry_payload, hnow, hmem.2, if_pos rfl]
      have hanswer : v.answer cache (.redis (.hget (entryKey ns y.id) "payload")) s₁ =
          (.ok (.bulk (.completion y.completion)), s₁.settle) := by
        rw [answer_redis (by rw [hget]; rfl), hget]
      refine Ends.step hanswer ?_
      refine Ends.ret ⟨⟨_, rfl, fun _ => ⟨y, hy, hgreatest, rfl⟩, fun hall => ?_⟩, ⟨hnow, hdrawn⟩, hframe, hfiled⟩
      exact absurd (hall y hy) hlow

end Answers

/-! ### Histories -/

section Histories
variable {vs : List Visit} {s : State} {v : Visit}

theorem mem_deposits {y : Deposit} (h : y ∈ deposits cache ns vs) : ∃ u ∈ vs, y.time = u.time := by
  obtain ⟨u, hu, hy⟩ := List.mem_filterMap.mp h
  refine ⟨u, hu, ?_⟩
  unfold Visit.deposit at hy
  split at hy
  · split at hy
    · cases hy
      rfl
    · cases hy
  · cases hy

theorem deposits_lookup {tenant : String} {r : ChatRequest} (h : v.call = .lookup tenant r) :
    deposits cache ns (v :: vs) = deposits cache ns vs :=
  List.filterMap_cons_none (by rw [Visit.deposit, h])

theorem deposits_other {tenant : String} {r : ChatRequest} {d : CachedCompletion} (h : v.call = .store tenant r d)
    (hns : ns ≠ namespaceFor cache.sha256 tenant r) : deposits cache ns (v :: vs) = deposits cache ns vs :=
  List.filterMap_cons_none (by rw [Visit.deposit, h]; exact if_neg hns.symm)

theorem deposits_store {tenant : String} {r : ChatRequest} {d : CachedCompletion} (h : v.call = .store tenant r d) :
    deposits cache (namespaceFor cache.sha256 tenant r) (v :: vs) =
      ⟨v.uuid, v.time, cache.embedder r.last.content, d⟩ :: deposits cache (namespaceFor cache.sha256 tenant r) vs :=
  List.filterMap_cons_some (by rw [Visit.deposit, h]; exact if_pos rfl)

/-- What a history leaves, namespace by namespace. -/
structure Standing (cache : SemanticCache) (vs : List Visit) (s : State) : Prop where
  filed : ∀ ns, ':' ∉ ns.toList → Filed cache ns s.now s.store (deposits cache ns vs)
  ordered : ∀ ns, Ordered (deposits cache ns vs)
  tagged : Tagged s.store
  drawn : ∀ ns, ∀ x ∈ deposits cache ns vs, x.id ∈ s.drawn
  clock : ∀ time, (∀ u ∈ vs, u.time < time) → s.now ≤ millis time

theorem standing_empty : Standing cache [] {} where
  filed _ _ := .empty
  ordered _ := ⟨.nil, .nil, nofun⟩
  tagged _ _ h := nomatch h
  drawn _ _ h := nomatch h
  clock _ _ := Nat.zero_le _

/-- What a visit is answered. -/
structure Visit.Answered (cache : SemanticCache) (vs : List Visit) (v : Visit) (a : Except Exn Result) : Prop where
  lookup : ∀ tenant r, v.call = .lookup tenant r → ∃ hit, a = .ok (.found hit) ∧ Found cache (namespaceFor cache.sha256 tenant r)
    (cache.embedder r.last.content) (newest cache (namespaceFor cache.sha256 tenant r) vs (millis v.time)) hit
  store : ∀ tenant r d, v.call = .store tenant r d → a = .ok .stored

theorem zsetKey_inj {ns' : String} (h : zsetKey ns = zsetKey ns') : ns = ns' := (String.append_right_inj _).mp h

theorem Standing.visit (h : Standing cache vs s) (hindex : cache.index = .bruteForce) (hcap : 0 < cache.maxEntries)
    (hv : v.Next vs s) : Ends (v.answer cache) ((system cache).body v.call) { s with now := millis v.time } fun a s' =>
      v.Answered cache vs a ∧ s'.now = millis v.time ∧ Standing cache (v :: vs) s' := by
  have hle : s.now ≤ millis v.time := h.clock v.time hv.later
  have hclock : ∀ time, (∀ u ∈ v :: vs, u.time < time) → millis v.time ≤ millis time := fun time htime =>
    millis_mono (htime v List.mem_cons_self).le
  rcases hv.cached with ⟨tenant, r, hcall⟩ | ⟨tenant, r, d, hcall⟩
  · rw [hcall]
    have hfiled := (h.filed _ (@namespaceFor_no_colon cache.sha256 tenant r)).later hle
    refine Ends.bind (lookup_ends (s := { s with now := millis v.time }) hindex hfiled (h.ordered _) hcap) ?_ ?_
    · rintro hit s' ⟨⟨hit', hhit, hfound⟩, ⟨hnow, hdrawn⟩, hframe, hfiled'⟩
      cases hhit
      refine Ends.ret ⟨⟨fun t' r' hcall' => ?_, fun _ _ _ hcall' => ?_⟩, hnow, ⟨fun ns hns => ?_, fun ns => ?_, ?_, ?_, ?_⟩⟩
      · cases hcall.symm.trans hcall'
        exact ⟨hit, rfl, hfound⟩
      · cases hcall.symm.trans hcall'
      · rw [deposits_lookup hcall, hnow]
        by_cases hsame : ns = namespaceFor cache.sha256 tenant r
        · exact hsame ▸ hfiled'
        · exact ((h.filed ns hns).later hle).frame (fun id => hframe _ zsetKey_ne_entryKey.symm)
            (hframe _ fun heq => hsame (zsetKey_inj heq))
      · rw [deposits_lookup hcall]
        exact h.ordered ns
      · exact h.tagged.frame fun t' => hframe _ tenantKey_ne_zsetKey
      · intro ns x hx
        rw [deposits_lookup hcall] at hx
        rw [hdrawn]
        exact h.drawn ns x hx
      · rw [hnow]
        exact hclock
    · rintro x s' ⟨⟨hit, hhit, -⟩, -⟩
      cases hhit
  · rw [hcall]
    have hfiled := (h.filed _ (@namespaceFor_no_colon cache.sha256 tenant r)).later hle
    have hordered : Ordered (⟨v.uuid, v.time, cache.embedder r.last.content, d⟩ ::
        deposits cache (namespaceFor cache.sha256 tenant r) vs) := by
      have hold := h.ordered (namespaceFor cache.sha256 tenant r)
      refine ⟨List.pairwise_cons.mpr ⟨fun y hy => ?_, hold.times⟩, List.nodup_cons.mpr ⟨fun hid => ?_, hold.ids⟩,
        fun y hy => ?_⟩
      · obtain ⟨u, hu, hyu⟩ := mem_deposits hy
        exact hyu ▸ hv.later u hu
      · obtain ⟨y, hy, hyid⟩ := List.mem_map.mp hid
        have hdrawn := h.drawn _ y hy
        rw [hyid] at hdrawn
        exact hv.fresh.2 hdrawn
      · rcases List.mem_cons.mp hy with rfl | hy
        · exact hv.started
        · exact hold.started y hy
    obtain ⟨evicted, ⟨hsucceeds, hevicted⟩, hfiled', htagged⟩ := hfiled.deposit h.tagged hordered rfl hcap tenant
    refine Ends.bind (store_ends (s := { s with now := millis v.time }) hv.fresh rfl hsucceeds hevicted) ?_ ?_
    · rintro _ s' ⟨-, hnow, hdrawn, hstore⟩
      refine Ends.ret ⟨⟨fun _ _ hcall' => ?_, fun _ _ _ _ => rfl⟩, hnow, ⟨fun ns hns => ?_, fun ns => ?_, ?_, ?_, ?_⟩⟩
      · cases hcall.symm.trans hcall'
      · rw [hnow, hstore]
        by_cases hsame : ns = namespaceFor cache.sha256 tenant r
        · subst hsame
          rw [deposits_store hcall]
          exact hfiled'
        · rw [deposits_other hcall hsame]
          refine ((h.filed ns hns).later hle).frame (fun id => ?_) ?_
          · have hother : ∀ id', entryKey ns id ≠ entryKey (namespaceFor cache.sha256 tenant r) id' := fun id' heq =>
              hsame (entryKey_inj hns namespaceFor_no_colon heq).1
            rw [erase_frame hother]
            exact storeCmds_frame (hother _) zsetKey_ne_entryKey.symm tenantKey_ne_entryKey.symm
          · rw [erase_frame fun _ => zsetKey_ne_entryKey]
            exact storeCmds_frame zsetKey_ne_entryKey (fun heq => hsame (zsetKey_inj heq)) tenantKey_ne_zsetKey.symm
      · by_cases hsame : ns = namespaceFor cache.sha256 tenant r
        · subst hsame
          rw [deposits_store hcall]
          exact hordered
        · rw [deposits_other hcall hsame]
          exact h.ordered ns
      · rw [hstore]
        exact htagged
      · intro ns x hx
        rw [hdrawn]
        by_cases hsame : ns = namespaceFor cache.sha256 tenant r
        · subst hsame
          rw [deposits_store hcall] at hx
          rcases List.mem_cons.mp hx with rfl | hx
          · exact List.mem_cons_self
          · exact List.mem_cons_of_mem _ (h.drawn _ x hx)
        · rw [deposits_other hcall hsame] at hx
          exact List.mem_cons_of_mem _ (h.drawn ns x hx)
      · rw [hnow]
        exact hclock
    · rintro x s' ⟨hx, -⟩
      cases hx

theorem History.standing (hindex : cache.index = .bruteForce) (hcap : 0 < cache.maxEntries) (h : History cache vs s) :
    Standing cache vs s := by
  induction h with
  | empty => exact standing_empty
  | next _ hv ih => exact (ih.visit hindex hcap hv).2.2

/-- A namespace at some time: the entries that have not expired are those of the newest stores. -/
structure Newest (cache : SemanticCache) (ns : String) (vs : List Visit) (s : State) (time : ℚ) : Prop where
  entries : ∀ k, (entryPrefix ns).toList <+: k.toList →
    ((live? (millis time) s.store k).isSome = true ↔ ∃ x ∈ newest cache ns vs (millis time), k = entryKey ns x.id)
  recent : newest cache ns vs (millis time) <+: deposits cache ns vs
  capped : (newest cache ns vs (millis time)).length ≤ cache.maxEntries
  young : ∀ x ∈ newest cache ns vs (millis time), time - x.time < cache.ttl
  listed : ∀ x ∈ newest cache ns vs (millis time), ∃ z, zset? (millis time) s.store (zsetKey ns) = some z ∧
    z.lookup x.id = some x.time

theorem Filed.newest {time : ℚ} (h : Filed cache ns (millis time) s.store (deposits cache ns vs))
    (hl : Ordered (deposits cache ns vs)) : Newest cache ns vs s time where
  entries k hk := by
    obtain ⟨rest, hrest⟩ := hk
    obtain rfl : k = entryKey ns (.ofList rest) := String.ext (by simp [entryKey, ← hrest])
    constructor
    · intro hsome
      obtain ⟨e, he⟩ := Option.isSome_iff_exists.mp hsome
      obtain ⟨hlookup, hlive⟩ := live?_eq_some.mp he
      obtain ⟨x, -, hid, rfl, hkept⟩ := h.hashes _ e hlookup
      exact ⟨x, List.mem_filter.mpr ⟨hkept hlive, hlive⟩, by rw [hid]⟩
    · rintro ⟨x, hx, hkey⟩
      obtain ⟨htake, hlive⟩ := List.mem_filter.mp hx
      rw [hkey, live?_eq_some.mpr ⟨h.kept x htake, hlive⟩]
      rfl
  recent := (filter_initial (hl.sublist (List.take_sublist _ _)).live).trans (List.take_prefix _ _)
  capped := (List.length_filter_le _ _).trans (List.length_take_le _ _)
  young x hx := by
    obtain ⟨htake, hlive⟩ := List.mem_filter.mp hx
    exact x.young hlive (hl.started x (List.mem_of_mem_take htake))
  listed x hx := by
    obtain ⟨htake, hlive⟩ := List.mem_filter.mp hx
    obtain ⟨n, -, ⟨z, hz, hlists⟩, hlisted⟩ := h.ranked
    exact ⟨z, hz, (hlists x.id x.time).mpr (List.mem_map.mpr ⟨x, hlisted x htake hlive, rfl⟩)⟩

/-- After every call of a history each namespace holds the newest of its entries whose time is not up, and a lookup was
    answered by what its namespace held. -/
theorem namespaces_newest (hindex : cache.index = .bruteForce) (hcap : 0 < cache.maxEntries) (h : History cache vs s)
    (hv : v.Next vs s) : (∀ tenant r, Newest cache (namespaceFor cache.sha256 tenant r) (v :: vs) (v.run cache s).2 v.time) ∧
      v.Answered cache vs (v.run cache s).1 := by
  obtain ⟨hanswered, hnow, hstanding⟩ := (h.standing hindex hcap).visit hindex hcap hv
  refine ⟨fun tenant r => Filed.newest ?_ (hstanding.ordered _), hanswered⟩
  have hfiled := hstanding.filed _ (@namespaceFor_no_colon cache.sha256 tenant r)
  rw [hnow] at hfiled
  exact hfiled

end Histories

/-! ### Three answers to a question -/

namespace Remembered
open AskedTwice (sha256 ask)

/-- A cache that keeps two entries. -/
def small : SemanticCache := { AskedTwice.cache with maxEntries := 2 }

/-- The answer is stored at this time, under the id of this number. -/
def stored (time : ℚ) (content : String) (digit : Char) : Visit :=
  ⟨.store "acme" ask ⟨content, "m", "stop", 4, 2, "d", 0⟩, time, .ofList (List.replicate 31 '0' ++ [digit])⟩

def first : Visit := stored 0 "no one" '1'

def second : Visit := stored 1 "the cat" '2'

def third : Visit := stored 2 "the neighbour" '3'

/-- The second entry is up after sixty-one seconds, and the third after sixty-two. -/
def looked : Visit := ⟨.lookup "acme" ask, 123 / 2, "00000000000000000000000000000004"⟩

def state1 : State := (first.run small {}).2

def state2 : State := (second.run small state1).2

def state3 : State := (third.run small state2).2

theorem first_next : first.Next [] {} := ⟨Or.inr ⟨_, _, _, rfl⟩, nofun, le_refl 0, by decide⟩

theorem second_next : second.Next [first] state1 :=
  ⟨Or.inr ⟨_, _, _, rfl⟩, List.forall_mem_singleton.mpr (by decide +kernel), by decide +kernel, by decide +kernel⟩

theorem third_next : third.Next [second, first] state2 :=
  ⟨Or.inr ⟨_, _, _, rfl⟩, List.forall_mem_cons.mpr ⟨by decide +kernel, List.forall_mem_singleton.mpr (by decide +kernel)⟩,
    by decide +kernel, by decide +kernel⟩

theorem looked_next : looked.Next [third, second, first] state3 :=
  ⟨Or.inl ⟨_, _, rfl⟩, List.forall_mem_cons.mpr ⟨by decide +kernel, List.forall_mem_cons.mpr
    ⟨by decide +kernel, List.forall_mem_singleton.mpr (by decide +kernel)⟩⟩, by decide +kernel, by decide +kernel⟩

/-- The first entry has given way to the third, and the time of the second is up. -/
theorem newest_remembered :
    Newest small (namespaceFor sha256 "acme" ask) [looked, third, second, first] (looked.run small state3).2 looked.time ∧
      looked.Answered small [third, second, first] (looked.run small state3).1 ∧
      (newest small (namespaceFor sha256 "acme" ask) [third, second, first] (millis looked.time)).map Deposit.id = [third.uuid] := by
  have h := namespaces_newest rfl (by decide) (.next (.next (.next .empty first_next) second_next) third_next) looked_next
  exact ⟨h.1 "acme" ask, h.2, by decide +kernel⟩

end Remembered

end NexusGate.Cache
