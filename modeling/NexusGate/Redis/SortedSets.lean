import NexusGate.Redis.Store

/-! # The order of a sorted set

`ranked` lists every member once, by rising score; a set whose members are known as a list by falling score stays
so known under the commands that change it. -/

namespace Redis

section Ranked
variable {z : AList fun _ : String => ℚ} {m : String}

/-- The order of the members, as the entries are sorted. -/
def before (a b : Sigma fun _ : String => ℚ) : Prop := a.2 < b.2 ∨ (a.2 = b.2 ∧ a.1 ≤ b.1)

instance : DecidableRel before := fun _ _ => inferInstanceAs (Decidable (_ ∨ _))

theorem before_total (a b : Sigma fun _ : String => ℚ) : before a b ∨ before b a := by
  rcases lt_trichotomy a.2 b.2 with h | h | h
  · exact Or.inl (Or.inl h)
  · rcases String.le_total a.1 b.1 with hn | hn
    · exact Or.inl (Or.inr ⟨h, hn⟩)
    · exact Or.inr (Or.inr ⟨h.symm, hn⟩)
  · exact Or.inr (Or.inl h)

theorem before_trans {a b c : Sigma fun _ : String => ℚ} (hab : before a b) (hbc : before b c) : before a c := by
  rcases hab with hab | ⟨hab, hab'⟩
  · rcases hbc with hbc | ⟨hbc, -⟩
    · exact Or.inl (lt_trans hab hbc)
    · exact Or.inl (hbc ▸ hab)
  · rcases hbc with hbc | ⟨hbc, hbc'⟩
    · exact Or.inl (hab ▸ hbc)
    · exact Or.inr ⟨hab.trans hbc, String.le_trans hab' hbc'⟩

instance : Std.Total before := ⟨before_total⟩

instance : IsTrans _ before := ⟨fun _ _ _ => before_trans⟩

theorem ranked_eq : ranked z = (z.entries.insertionSort before).map Sigma.fst := rfl

theorem ranked_perm : (ranked z).Perm z.keys := (List.perm_insertionSort before z.entries).map Sigma.fst

theorem ranked_nodup : (ranked z).Nodup := ranked_perm.nodup_iff.mpr z.keys_nodup

theorem mem_ranked : m ∈ ranked z ↔ ∃ q, z.lookup m = some q := by
  rw [ranked_perm.mem_iff, ← AList.mem_keys, ← AList.lookup_isSome, Option.isSome_iff_exists]

/-- Members by rising score. -/
theorem ranked_pairwise : (ranked z).Pairwise fun a b => ∀ p q, z.lookup a = some p → z.lookup b = some q → p ≤ q := by
  rw [ranked_eq, List.pairwise_map]
  refine (List.pairwise_insertionSort before z.entries).imp_of_mem fun {a b} ha hb hab p q hp hq => ?_
  have score {e : Sigma fun _ : String => ℚ} {q : ℚ} (he : e ∈ z.entries.insertionSort before) (hq : z.lookup e.1 = some q) :
      q = e.2 := by
    have he : z.lookup e.1 = some e.2 := AList.mem_lookup_iff.mpr (List.mem_insertionSort before |>.mp he)
    exact Option.some.inj (hq.symm.trans he)
  rw [score ha hp, score hb hq]
  rcases hab with hab | ⟨hab, -⟩
  · exact le_of_lt hab
  · exact le_of_eq hab

end Ranked

/-- `0 .. -1` is everything. -/
theorem slice_all {α : Type} (l : List α) : slice l 0 (-1) = l := by
  simp [slice, List.take_of_length_le]

/-! ### The first and the last of a list -/

theorem slice_front {α : Type} {l : List α} {m : Nat} : slice l 0 (-(m + 1)) = l.take (l.length - m) := by
  have hneg : (-((m : Int) + 1)) < 0 := by omega
  simp only [slice, lt_irrefl, if_false, hneg, if_true, Int.toNat_zero, List.drop_zero]
  congr 1
  omega

theorem slice_first {α : Type} {l : List α} {m : Nat} (hm : 0 < m) : slice l 0 (m - 1) = l.take m := by
  have hpos : ¬((m : Int) - 1 < 0) := by omega
  simp only [slice, lt_irrefl, if_false, hpos, Int.toNat_zero, List.drop_zero]
  congr 1
  omega

/-! ### A sorted set as a list -/

/-- The sorted set has these members with these scores, and no others. -/
def Lists (z : AList fun _ : String => ℚ) (l : List (String × ℚ)) : Prop := ∀ m q, z.lookup m = some q ↔ (m, q) ∈ l

section Lists
variable {z : AList fun _ : String => ℚ} {l : List (String × ℚ)}

theorem lists_empty : Lists ∅ [] := fun m q => by simp

theorem Lists.insert {m : String} {q : ℚ} (h : Lists z l) (hm : m ∉ l.map Prod.fst) : Lists (z.insert m q) ((m, q) :: l) := by
  intro m' q'
  rw [List.mem_cons]
  by_cases hmm : m' = m
  · subst hmm
    rw [AList.lookup_insert]
    constructor
    · rintro ⟨⟩
      exact Or.inl rfl
    · rintro (heq | hmem)
      · cases heq
        rfl
      · exact absurd (List.mem_map.mpr ⟨_, hmem, rfl⟩) hm
  · rw [AList.lookup_insert_ne hmm, h m' q']
    exact ⟨Or.inr, fun hor => hor.resolve_left fun heq => hmm (congrArg Prod.fst heq)⟩

theorem lookup_without {m : String} : ∀ {ms : List String} {z : AList fun _ : String => ℚ},
    (without z ms).lookup m = if m ∈ ms then none else z.lookup m
  | [], z => rfl
  | m' :: ms, z => by
    rw [without, List.foldl_cons, ← without, lookup_without]
    by_cases hmm : m = m'
    · subst hmm
      simp
    · rw [AList.lookup_erase_ne hmm]
      simp [hmm]

theorem Lists.without (h : Lists z l) (ms : List String) : Lists (without z ms) (l.filter fun x => x.1 ∉ ms) := by
  intro m q
  rw [lookup_without, List.mem_filter, decide_eq_true_eq, ← h m q]
  by_cases hm : m ∈ ms
  · simp [hm]
  · simp [hm]

/-- The list by falling score: the sorted set ranks it the other way round. -/
theorem Lists.ranked_eq (h : Lists z l) (hl : l.Pairwise fun x y => y.2 < x.2) : ranked z = (l.map Prod.fst).reverse := by
  have same {x y : String × ℚ} (hx : x ∈ l) (hy : y ∈ l) (hxy : x.1 = y.1) : x = y := by
    have hscore : some x.2 = some y.2 := ((h x.1 x.2).mpr hx).symm.trans (hxy ▸ (h y.1 y.2).mpr hy)
    exact Prod.ext hxy (Option.some.inj hscore)
  have hnodup : (l.map Prod.fst).Nodup := by
    refine List.pairwise_map.mpr (hl.imp_of_mem fun {x y} hx hy hlt heq => ?_)
    rw [same hx hy heq] at hlt
    exact lt_irrefl _ hlt
  have hscores : (l.map Prod.snd).Nodup := List.pairwise_map.mpr (hl.imp ne_of_gt)
  have hperm : (ranked z).Perm (l.map Prod.fst).reverse := by
    refine (List.perm_ext_iff_of_nodup ranked_nodup (List.nodup_reverse.mpr hnodup)).mpr fun m => ?_
    rw [mem_ranked, List.mem_reverse, List.mem_map]
    exact ⟨fun ⟨q, hq⟩ => ⟨(m, q), (h m q).mp hq, rfl⟩, fun ⟨x, hx, hm⟩ => ⟨x.2, (h m x.2).mpr (hm ▸ hx)⟩⟩
  refine List.Perm.eq_of_pairwise ?_ ranked_pairwise ?_ hperm
  · intro a b ha hb hab hba
    obtain ⟨p, hp⟩ := mem_ranked.mp ha
    obtain ⟨y, hy, rfl⟩ := List.mem_map.mp (List.mem_reverse.mp hb)
    have hq := (h y.1 y.2).mpr hy
    have hpq : p = y.2 := le_antisymm (hab p y.2 hp hq) (hba y.2 p hq hp)
    exact congrArg Prod.fst (List.inj_on_of_nodup_map hscores ((h a p).mp hp) hy hpq)
  · rw [List.pairwise_reverse, List.pairwise_map]
    refine hl.imp_of_mem fun {x y} hx hy hlt p q hp hq => ?_
    obtain rfl : p = y.2 := Option.some.inj (hp.symm.trans ((h y.1 y.2).mpr hy))
    obtain rfl : q = x.2 := Option.some.inj (hq.symm.trans ((h x.1 x.2).mpr hx))
    exact le_of_lt hlt

end Lists

/-! ### Commands on a sorted set that is known as a list -/

/-- The key holds a sorted set with these members; where there is no key, it has none. -/
def Ranks {β : Type} (now : Nat) (s : Store β) (k : String) (l : List (String × ℚ)) : Prop := ∃ z, zset? now s k = some z ∧ Lists z l

section Ranks
variable {β : Type} {now : Nat} {s t : Store β} {k : String} {l : List (String × ℚ)}

theorem onZset_ranks {z : AList fun _ : String => ℚ}
    {f : (AList fun _ : String => ℚ) → (AList fun _ : String => ℚ) × Reply β}
    (h : zset? now s k = some z) (hf : Lists (f z).1 l) :
    (onZset now s k f).1 = (f z).2 ∧ Ranks now (onZset now s k f).2 k l ∧
      (live? now (onZset now s k f).2 k = none → (onZset now s k f).2.lookup k = none) := by
  rw [onZset_zset h]
  by_cases hz : (f z).1.entries = []
  · have hempty : ∅ = (f z).1 := AList.ext hz.symm
    simp only [if_pos hz, AList.lookup_erase, implies_true, and_true, true_and]
    exact ⟨∅, by simp [zset?, value?, live?], hempty ▸ hf⟩
  · simp only [if_neg hz, live?_insert_kept, true_and, reduceCtorEq, false_implies, and_true]
    exact ⟨_, by rw [zset?, value?, live?_insert_kept]; rfl, hf⟩

theorem ranks_congr (h : t.lookup k = s.lookup k) : Ranks now t k l ↔ Ranks now s k l := by
  rw [Ranks, Ranks, zset?_congr (value?_congr h)]

theorem ranks_of_absent (h : s.lookup k = none) : Ranks now s k [] := ⟨∅, by simp [zset?, value?, live?, h], lists_empty⟩

/-- A member that is there keeps the key alive. -/
theorem Ranks.live (h : Ranks now s k l) (hl : l ≠ []) : ∃ e, live? now s k = some e := by
  obtain ⟨z, hz, hlists⟩ := h
  cases he : live? now s k with
  | some e => exact ⟨e, rfl⟩
  | none =>
    rw [zset?, value?, he] at hz
    cases hz
    obtain ⟨x, hx⟩ := List.exists_mem_of_ne_nil l hl
    cases (lists_empty x.1 x.2).mp ((hlists x.1 x.2).mpr hx)

/-- Time takes the whole key away, or nothing. -/
theorem Ranks.later {later : Nat} (h : Ranks now s k l) (hle : now ≤ later) :
    Ranks later s k l ∨ (live? later s k = none ∧ Ranks later s k []) := by
  rcases live?_later (k := k) (s := s) hle with hnone | hsame
  · exact Or.inr ⟨hnone, ∅, by simp [zset?, value?, hnone], lists_empty⟩
  · exact Or.inl (by simpa only [Ranks, zset?, value?, hsame] using h)

variable [Payload β]

theorem Ranks.zadd (h : Ranks now s k l) {m : String} {q : ℚ} (hm : m ∉ l.map Prod.fst) :
    (∃ n, (exec now (.zadd k [(m, q)] false) s).1 = .int n) ∧
      Ranks now (exec now (.zadd k [(m, q)] false) s).2 k ((m, q) :: l) := by
  obtain ⟨z, hz, hlists⟩ := h
  have ⟨hr, hranks, _⟩ := onZset_ranks (f := fun z => ([(m, q)].foldl (fun z m => if false && (z.lookup m.1).isSome then z
    else z.insert m.1 m.2) z, (.int ([(m, q)].countP fun m => (z.lookup m.1).isNone) : Reply β))) hz (hlists.insert hm)
  exact ⟨⟨_, hr⟩, hranks⟩

theorem Ranks.zrem (h : Ranks now s k l) (ms : List String) :
    (∃ n, (exec now (.zrem k ms) s).1 = .int n) ∧ Ranks now (exec now (.zrem k ms) s).2 k (l.filter fun x => x.1 ∉ ms) := by
  obtain ⟨z, hz, hlists⟩ := h
  have ⟨hr, hranks, _⟩ := onZset_ranks (f := fun z => (without z ms, (.int (ms.countP fun m => (z.lookup m).isSome) : Reply β)))
    hz (hlists.without ms)
  exact ⟨⟨_, hr⟩, hranks⟩

theorem Ranks.zremrangebyscore (h : Ranks now s k l) (max : ℚ) :
    (∃ n, (exec now (.zremrangebyscore k max) s).1 = .int n) ∧
      Ranks now (exec now (.zremrangebyscore k max) s).2 k (l.filter fun x => max < x.2) := by
  obtain ⟨z, hz, hlists⟩ := h
  have hfilter : (l.filter fun x => x.1 ∉ (ranked z).filter fun m => (z.lookup m).any (· ≤ max)) =
      l.filter fun x => max < x.2 := by
    refine List.filter_congr fun x hx => ?_
    have hscore := (hlists x.1 x.2).mpr hx
    simp only [List.mem_filter, mem_ranked, hscore, Option.some.injEq, exists_eq', true_and, Option.any_some, decide_eq_true_eq,
      not_le]
  have ⟨hr, hranks, _⟩ := onZset_ranks (f := fun z => let out := (ranked z).filter fun m => (z.lookup m).any (· ≤ max)
    (without z out, (.int out.length : Reply β))) hz (hfilter ▸ hlists.without _)
  exact ⟨⟨_, hr⟩, hranks⟩

theorem Ranks.zremrangebyrank (h : Ranks now s k l) (hl : l.Pairwise fun x y => y.2 < x.2) (start stop : Int) :
    (∃ n, (exec now (.zremrangebyrank k start stop) s).1 = .int n) ∧
      Ranks now (exec now (.zremrangebyrank k start stop) s).2 k
        (l.filter fun x => x.1 ∉ slice (l.map Prod.fst).reverse start stop) ∧
      (live? now (exec now (.zremrangebyrank k start stop) s).2 k = none →
        (exec now (.zremrangebyrank k start stop) s).2.lookup k = none) := by
  obtain ⟨z, hz, hlists⟩ := h
  have ⟨hr, hranks⟩ := onZset_ranks (f := fun z => let out := slice (ranked z) start stop
    (without z out, (.int out.length : Reply β))) hz (hlists.without _)
  rw [hlists.ranked_eq hl] at hranks
  exact ⟨⟨_, hr⟩, hranks⟩

theorem Ranks.zrange (h : Ranks now s k l) (hl : l.Pairwise fun x y => y.2 < x.2) (start stop : Int) :
    exec now (.zrange k start stop) s = (.strings (slice (l.map Prod.fst).reverse start stop), s) := by
  obtain ⟨z, hz, hlists⟩ := h
  rw [← hlists.ranked_eq hl]
  unfold zset? at hz
  split at hz
  · rename_i hv
    cases hz
    simp [exec, hv, ranked, slice]
  · rename_i hv
    cases hz
    simp only [exec, hv]
  · cases hz

theorem Ranks.zrevrange (h : Ranks now s k l) (hl : l.Pairwise fun x y => y.2 < x.2) (start stop : Int) :
    exec now (.zrevrange k start stop) s = (.strings (slice (l.map Prod.fst) start stop), s) := by
  obtain ⟨z, hz, hlists⟩ := h
  rw [← List.reverse_reverse (l.map Prod.fst), ← hlists.ranked_eq hl]
  unfold zset? at hz
  split at hz
  · rename_i hv
    cases hz
    simp [exec, hv, ranked, slice]
  · rename_i hv
    cases hz
    simp only [exec, hv]
  · cases hz

theorem Ranks.expire (h : Ranks now s k l) {n : Nat} (hn : 0 < n ∨ l = []) : Ranks now (exec now (.expire k n) s).2 k l := by
  rcases Nat.eq_zero_or_pos n with rfl | hpos
  · obtain rfl := hn.resolve_left (lt_irrefl 0)
    cases he : live? now s k with
    | none => simpa only [exec, he] using h
    | some e => exact ⟨∅, by simp [exec_expire_live he, zset?, value?, live?, Entry.live, deadline, Option.filter], lists_empty⟩
  · simpa only [Ranks, zset?, exec_expire_keeps hpos] using h

end Ranks

end Redis
