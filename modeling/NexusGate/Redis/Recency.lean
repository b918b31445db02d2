import NexusGate.Redis.SortedSets

/-! # A sorted set of the newest members

Members are recorded with the time as their score, by the five commands that add one, take out those that are too old and
keep so many of the rest. -/

namespace Redis

section Lists
variable {α γ : Type} {l : List α}

/-- What holds of the first elements only holds of a prefix. -/
theorem filter_initial {p : α → Bool} : ∀ {l : List α}, (l.Pairwise fun x y => p y = true → p x = true) → l.filter p <+: l
  | [], _ => List.prefix_rfl
  | x :: l, h => by
    obtain ⟨hx, hl⟩ := List.pairwise_cons.mp h
    by_cases hp : p x = true
    · rw [List.filter_cons_of_pos hp]
      exact List.prefix_cons_inj x |>.mpr (filter_initial hl)
    · have hnone : l.filter p = [] := List.filter_eq_nil_iff.mpr fun y hy hpy => hp (hx y hy hpy)
      rw [List.filter_cons_of_neg hp, hnone]
      exact List.nil_prefix

theorem filter_eq_take {p : α → Bool} (h : l.Pairwise fun x y => p y = true → p x = true) :
    ∃ n ≤ l.length, l.filter p = l.take n :=
  ⟨_, List.length_filter_le p l, List.prefix_iff_eq_take.mp (filter_initial h)⟩

/-- The names of the rest are no names of the first. -/
theorem name_take {f : α → γ} (h : (l.map f).Nodup) {x : α} {m : Nat} (hx : x ∈ l.take m) : f x ∉ (l.drop m).map f := by
  intro hd
  rw [List.map_drop] at hd
  refine List.disjoint_take_drop h (le_refl m) ?_ hd
  rw [← List.map_take]
  exact List.mem_map.mpr ⟨x, hx, rfl⟩

theorem filter_names [DecidableEq γ] {f : α → γ} (h : (l.map f).Nodup) (m : Nat) :
    (l.filter fun x => f x ∉ ((l.map f).drop m).reverse) = l.take m := by
  have hsplit : l = l.take m ++ l.drop m := (List.take_append_drop m l).symm
  conv_lhs => rw [hsplit]
  rw [List.filter_append, List.filter_eq_self.mpr, List.filter_eq_nil_iff.mpr, List.append_nil]
  · intro x hx
    simpa [hsplit.symm, ← List.map_drop] using ⟨x, hx, rfl⟩
  · intro x hx
    have hnot := name_take h hx
    rw [List.map_drop] at hnot
    simpa [hsplit.symm] using hnot

/-- Of a list by falling rank, the slice up to the last `m` members. -/
theorem slice_reverse {m : Nat} : slice l.reverse 0 (-(m + 1)) = (l.drop m).reverse := by
  rw [slice_front, List.take_reverse, List.length_reverse]
  rcases Nat.le_total l.length m with hle | hle
  · rw [Nat.sub_eq_zero_of_le hle, Nat.sub_zero, List.drop_length, List.drop_eq_nil_of_le hle]
  · rw [Nat.sub_sub_self hle]

end Lists

section Recording
variable {β : Type} [Payload β] {now : Nat} {s : Store β} {k : String} {l : List (String × ℚ)}

/-- Record a member now, keeping the `m` newest of the last `ttl` seconds. -/
def record (k : String) (ttl m : Nat) (member : String) (time : ℚ) : List (Cmd β) :=
  [.zadd k [(member, time)] false, .zremrangebyscore k (time - ttl), .zrange k 0 (-(m + 1)), .zremrangebyrank k 0 (-(m + 1)),
    .expire k ttl]

/-- The members that are not too old, the newest first. -/
def unaged (ttl : Nat) (time : ℚ) (l : List (String × ℚ)) : List (String × ℚ) := l.filter fun x => time - ttl < x.2

theorem unaged_nil {ttl : Nat} {time : ℚ} (hl : ∀ x ∈ l, x.2 ≤ time) (httl : ttl = 0) : unaged ttl time l = [] :=
  List.filter_eq_nil_iff.mpr fun x hx => by simpa [httl] using hl x hx

theorem execAll_append_fst : ∀ {cs ds : List (Cmd β)} {s : Store β},
    (execAll now (cs ++ ds) s).1 = (execAll now cs s).1 ++ (execAll now ds (execAll now cs s).2).1
  | [], _, _ => rfl
  | c :: cs, ds, s => congrArg ((exec now c s).1 :: ·) (@execAll_append_fst cs ds (exec now c s).2)

theorem expire_deadline {n : Nat} {e : Entry β} (hgone : live? now s k = none → s.lookup k = none)
    (he : (exec now (.expire k n) s).2.lookup k = some e) : e.expiresAt = some (deadline now n) := by
  cases hlive : live? now s k with
  | none =>
    simp only [exec, hlive, hgone hlive, reduceCtorEq] at he
  | some e₀ =>
    rw [exec_expire_live hlive, AList.lookup_insert] at he
    cases he
    rfl

/-- What recording a member answers and leaves. -/
theorem record_ranks {ttl m : Nat} {member : String} {time : ℚ} (h : Ranks now s k l) (hname : member ∉ l.map Prod.fst)
    (hl : ((member, time) :: l).Pairwise fun x y => y.2 < x.2) (hnames : (((member, time) :: l).map Prod.fst).Nodup) :
    (∃ a b c d, (execAll now (record k ttl m member time) s).1 =
      [.int a, .int b, .strings ((((unaged ttl time ((member, time) :: l)).drop m).map Prod.fst).reverse), .int c, .int d]) ∧
      Ranks now (execAll now (record k ttl m member time) s).2 k ((unaged ttl time ((member, time) :: l)).take m) ∧
      ∀ e, (execAll now (record k ttl m member time) s).2.lookup k = some e → e.expiresAt = some (deadline now ttl) := by
  obtain ⟨⟨a, ha⟩, h₁⟩ := h.zadd (q := time) hname
  obtain ⟨⟨b, hb⟩, h₂⟩ := h₁.zremrangebyscore (time - ttl)
  have hsub : (unaged ttl time ((member, time) :: l)).Sublist ((member, time) :: l) := List.filter_sublist
  have hsorted := hl.sublist hsub
  have hrange := h₂.zrange hsorted 0 (-(m + 1))
  obtain ⟨⟨c, hc⟩, h₃, hgone⟩ := h₂.zremrangebyrank hsorted 0 (-(m + 1))
  rw [slice_reverse] at hrange h₃
  have hfilter := filter_names (f := Prod.fst) (hnames.sublist (hsub.map Prod.fst)) m
  have h₄ : Ranks now _ k ((unaged ttl time ((member, time) :: l)).take m) := hfilter ▸ h₃
  have hages : ∀ x ∈ (member, time) :: l, x.2 ≤ time := by
    intro x hx
    rcases List.mem_cons.mp hx with rfl | hx
    · exact le_refl _
    · exact le_of_lt ((List.pairwise_cons.mp hl).1 x hx)
  have h₅ := h₄.expire (n := ttl) <| (Nat.eq_zero_or_pos ttl).symm.imp id fun h0 => by
    rw [unaged_nil hages h0, List.take_nil]
  have hkeeps : ((exec now (.zrange k 0 (-(m + 1))) (exec now (.zremrangebyscore k (time - ttl))
      (exec now (.zadd k [(member, time)] false) s).2).2) : Reply β × Store β).2 = _ := congrArg Prod.snd hrange
  simp only [record, execAll_cons_fst, execAll_cons_snd, hkeeps]
  obtain ⟨d, hd⟩ := @exec_expire_int β _ now ttl
    (exec now (.zremrangebyrank k 0 (-(m + 1))) (exec now (.zremrangebyscore k (time - ttl))
      (exec now (.zadd k [(member, time)] false) s).2).2).2 k
  refine ⟨⟨a, b, c, d, ?_⟩, h₅, fun e he => ?_⟩
  · rw [ha, hb, hrange, hc, hd, List.map_drop]
    rfl
  · exact expire_deadline hgone he

end Recording

end Redis
