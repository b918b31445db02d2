import Mathlib.Data.List.Chain
import NexusGate.Theorems.Core.RateLimit

/-! # What a refused caller is told, and what expiry hides

A key is hit at times that the replicas and Redis agree on and that do not decrease. The bound over any window of
time rests on the tokens that are left and on the time of the last hit; a wait is exact because the bucket holds no
more than its capacity; and a bucket that expires has been left alone for longer than it takes to fill. -/

namespace NexusGate.Core
open Redis

variable {limit : Limit} {key : String}

/-- A hit whose time all clocks agree on. -/
structure Request (limit : Limit) where
  time : ℚ
  cost : ℚ
  since_epoch : 0 ≤ time
  cost_pos : 0 < cost
  cost_le : cost ≤ limit.capacity

namespace Request

/-- The hit that a request makes on a key. -/
def hit (key : String) (q : Request limit) : Hit := ⟨⟨key, ⌊1000 * q.time⌋₊, q.time⟩, q.cost⟩

/-- The hit for a Redis whose clock stands still, so that nothing ever expires. -/
def kept (key : String) (q : Request limit) : Hit := ⟨⟨key, 0, q.time⟩, q.cost⟩

end Request

/-- The store after the hits, which are carried out one after the other. -/
def after (limit : Limit) (hits : List Hit) (s : Store ℚ) : Store ℚ := hits.foldl (fun s h => (hit limit h s).2) s

/-- The decisions on a list of hits. -/
def answers (limit : Limit) : List Hit → Store ℚ → List (Option RateLimitDecision)
  | [], _ => []
  | h :: hs, s => (hit limit h s).1 :: answers limit hs (hit limit h s).2

/-- What the hits from `start` to `stop` that are let in cost together. -/
def admitted (start stop : ℚ) (key : String) : List (Request limit) → Store ℚ → ℚ
  | [], _ => 0
  | q :: qs, s =>
    let (decision, s) := hit limit (q.hit key) s
    (if start ≤ q.time ∧ q.time ≤ stop ∧ decision.any RateLimitDecision.allowed then q.cost else 0) +
      admitted start stop key qs s

/-- The `Retry-After` of `rate_limited`. -/
def RateLimitDecision.retryAfter (d : RateLimitDecision) : Int := max 1 d.retryAfterSeconds

/-! ### A hit in full -/

/-- The seconds until a refused hit would be let in. -/
def wait (limit : Limit) (b : Option Bucket) (h : Hit) : ℚ :=
  if h.cost ≤ available limit b h.toReading then 0 else (h.cost - available limit b h.toReading) / limit.refillPerSec

/-- `tokenBucketLua` for a hit. -/
def script (limit : Limit) (h : Hit) (s : Store ℚ) : Option ((Bool × ℚ × ℚ) × Store ℚ) :=
  tokenBucketLua h.clock (bucketKey h.key) limit.capacity limit.refillPerSec h.now h.cost s

theorem script_eq {h : Hit} {s : Store ℚ} {b : Option Bucket} (hb : Stores s h.key b) (limit : Limit) :
    script limit h s = some ((decide (h.cost ≤ available limit b h.toReading), left limit b h, wait limit b h),
      (hit limit h s).2) := by
  simp only [script, hit, tokenBucketLua, hb.read, Option.map_some, ← available_eq]
  by_cases hc : h.cost ≤ available limit b h.toReading
  · simp [left, wait, hc]
  · simp [left, wait, hc]

theorem hit_answer {h : Hit} {s : Store ℚ} {b : Option Bucket} (hb : Stores s h.key b) (limit : Limit) :
    (hit limit h s).1 = some
      ⟨decide (h.cost ≤ available limit b h.toReading), ⌊left limit b h⌋, ⌈wait limit b h⌉, limit.capacity⟩ := by
  have hs := script_eq hb limit
  unfold script at hs
  rw [hit, hs]

theorem available_le_capacity {b : Option Bucket} {r : Reading} : available limit b r ≤ limit.capacity := by
  rw [available_eq]
  exact min_le_left _ _

/-! ### The bucket of a key in a run -/

/-- The bucket of a key that was last hit at `last`, if it was hit at all. -/
def bucketOf (limit : Limit) (last : Option Reading) (tokens : ℚ) : Option Bucket := last.map fun r => .since limit r tokens

theorem bucketOf_nonneg {last : Option Reading} {tokens : ℚ} (ht : 0 ≤ tokens) :
    ∀ x, bucketOf limit last tokens = some x → 0 ≤ x.tokens := by
  intro x hx
  obtain ⟨r, -, rfl⟩ := Option.map_eq_some_iff.mp hx
  exact ht

/-- What is stored of a key that was last hit at `last`. -/
structure Holds (limit : Limit) (key : String) (s : Store ℚ) (last : Option Reading) (tokens : ℚ) : Prop where
  stores : Stores s key (bucketOf limit last tokens)
  nonneg : 0 ≤ tokens

theorem Holds.empty : Holds limit key ∅ none 0 := ⟨rfl, le_rfl⟩

theorem Holds.hit {s : Store ℚ} {last : Option Reading} {tokens : ℚ} {h : Hit} (hs : Holds limit h.key s last tokens) :
    Holds limit h.key (hit limit h s).2 (some h.toReading) (left limit (bucketOf limit last tokens) h) :=
  ⟨(hit_spec hs.stores limit).2, left_nonneg (bucketOf_nonneg hs.nonneg)⟩

theorem Holds.run : ∀ {qs : List (Request limit)} {s : Store ℚ} {last : Option Reading} {tokens : ℚ},
    Holds limit key s last tokens → ∃ last tokens, Holds limit key (after limit (qs.map (Request.hit key)) s) last tokens
  | [], _, _, _, hs => ⟨_, _, hs⟩
  | q :: qs, _, _, _, hs => @Holds.run qs _ _ _ (Holds.hit (h := q.hit key) hs)

/-- By the time a bucket expires it is long full. -/
theorem agrees (key : String) {p q : Request limit} (h : p.time ≤ q.time) :
    Agrees limit (p.hit key).toReading (q.hit key).toReading := by
  refine ⟨h, fun hexp => ?_⟩
  have hexp : ⌊1000 * p.time⌋₊ + 1000 * limit.ttl ≤ ⌊1000 * q.time⌋₊ := hexp
  have hp : 1000 * p.time < ⌊1000 * p.time⌋₊ + 1 := Nat.lt_floor_add_one _
  have hq : (⌊1000 * q.time⌋₊ : ℚ) ≤ 1000 * q.time := Nat.floor_le (mul_nonneg (by norm_num) q.since_epoch)
  have hcast : ((⌊1000 * p.time⌋₊ : ℚ) + 1000 * limit.ttl) ≤ ⌊1000 * q.time⌋₊ := by exact_mod_cast hexp
  have httl : limit.capacity / limit.refillPerSec + 60 ≤ limit.ttl := by
    have hceil : limit.capacity / limit.refillPerSec ≤ ⌈limit.capacity / limit.refillPerSec⌉ := Int.le_ceil _
    have hnat : ⌈limit.capacity / limit.refillPerSec⌉ + 60 ≤ (limit.ttl : ℤ) := Int.self_le_toNat _
    have hrat : (⌈limit.capacity / limit.refillPerSec⌉ : ℚ) + 60 ≤ limit.ttl := by exact_mod_cast hnat
    linarith
  change limit.capacity / limit.refillPerSec ≤ q.time - p.time
  linarith

/-! ### Any window of time -/

theorem taken_le (start stop : ℚ) {q : Request limit} {s : Store ℚ} {b : Option Bucket} (hb : Stores s key b) :
    (if start ≤ q.time ∧ q.time ≤ stop ∧ (hit limit (q.hit key) s).1.any RateLimitDecision.allowed then q.cost else 0) +
      left limit b (q.hit key) ≤ available limit b (q.hit key).toReading := by
  rw [← taken_add_left]
  refine add_le_add_left ?_ _
  rw [(hit_spec (h := q.hit key) hb limit).1]
  split_ifs with h₁ h₂
  · exact le_rfl
  · exact absurd (of_decide_eq_true h₁.2.2) h₂
  · exact q.cost_pos.le
  · exact le_rfl

theorem admitted_late {start stop : ℚ} : ∀ {qs : List (Request limit)} {s : Store ℚ}, (∀ q ∈ qs, stop < q.time) →
    admitted start stop key qs s = 0
  | [], _, _ => rfl
  | q :: qs, s, h => by
    obtain ⟨hq, hqs⟩ := List.forall_mem_cons.mp h
    simp only [admitted, admitted_late hqs, add_zero]
    exact if_neg fun hin => absurd hin.2.1 (not_le.mpr hq)

/-- The tokens that are left and the refill until the window ends. -/
theorem admitted_le_left (start stop : ℚ) : ∀ {qs : List (Request limit)} {p : Request limit} {s : Store ℚ} {tokens : ℚ},
    Holds limit key s (some (p.hit key).toReading) tokens → (p :: qs).IsChain (·.time ≤ ·.time) → p.time ≤ stop →
    admitted start stop key qs s ≤ tokens + limit.refillPerSec * (stop - p.time)
  | [], p, _, _, hs, _, hp => add_nonneg hs.nonneg (mul_nonneg limit.refill_pos.le (sub_nonneg.mpr hp))
  | q :: qs, p, s, tokens, hs, hchain, hp => by
    obtain ⟨hpq, hrest⟩ := List.isChain_cons_cons.mp hchain
    by_cases hq : q.time ≤ stop
    · have ih := admitted_le_left start stop (Holds.hit (h := q.hit key) hs) hrest hq
      have htake := taken_le start stop (q := q) hs.stores
      have havail : available limit (bucketOf limit (some (p.hit key).toReading) tokens) (q.hit key).toReading ≤
          tokens + limit.refillPerSec * credit limit (p.hit key).toReading (q.hit key).toReading :=
        available_le limit _ _ hs.nonneg
      have hcredit : limit.refillPerSec * credit limit (p.hit key).toReading (q.hit key).toReading ≤
          limit.refillPerSec * (q.time - p.time) :=
        mul_le_mul_of_nonneg_left (credit_le_elapsed (agrees key hpq)) limit.refill_pos.le
      have hsplit : limit.refillPerSec * (stop - p.time) =
          limit.refillPerSec * (q.time - p.time) + limit.refillPerSec * (stop - q.time) := by ring
      simp only [admitted]
      linarith
    · have hlate : ∀ r ∈ q :: qs, stop < r.time := by
        intro r hr
        rcases List.mem_cons.mp hr with rfl | hr
        · exact not_le.mp hq
        · exact (not_le.mp hq).trans_le (List.rel_of_pairwise_cons (List.isChain_iff_pairwise.mp hrest) hr)
      rw [admitted_late hlate]
      exact add_nonneg hs.nonneg (mul_nonneg limit.refill_pos.le (sub_nonneg.mpr hp))

/-- At the first hit of the window the bucket holds no more than its capacity. -/
theorem admitted_le {start length : ℚ} (hlength : 0 ≤ length) : ∀ {qs : List (Request limit)} {s : Store ℚ}
    {last : Option Reading} {tokens : ℚ}, Holds limit key s last tokens → qs.IsChain (·.time ≤ ·.time) →
    admitted start (start + length) key qs s ≤ limit.capacity + limit.refillPerSec * length
  | [], _, _, _, _, _ => add_nonneg limit.capacity_pos.le (mul_nonneg limit.refill_pos.le hlength)
  | q :: qs, s, last, tokens, hs, hchain => by
    have hq := Holds.hit (h := q.hit key) hs
    by_cases hin : start ≤ q.time ∧ q.time ≤ start + length
    · have hrest := @admitted_le_left limit key start (start + length) _ _ _ _ hq hchain hin.2
      have htake := taken_le start (start + length) (q := q) hs.stores
      have hcap : available limit (bucketOf limit last tokens) (q.hit key).toReading ≤ limit.capacity :=
        available_le_capacity
      have hrefill : limit.refillPerSec * (start + length - q.time) ≤ limit.refillPerSec * length :=
        mul_le_mul_of_nonneg_left (by linarith) limit.refill_pos.le
      simp only [admitted]
      linarith
    · have hzero : ¬(start ≤ q.time ∧ q.time ≤ start + length ∧
          (hit limit (q.hit key) s).1.any RateLimitDecision.allowed = true) := fun h => hin ⟨h.1, h.2.1⟩
      simp only [admitted]
      rw [if_neg hzero, zero_add]
      exact admitted_le hlength hq hchain.tail

/-! ### Waiting -/

/-- A bucket that holds too little for a cost holds enough when the wait is over, and not before. -/
theorem enough_iff {p q : Request limit} {tokens : ℚ} (ht : 0 ≤ tokens) (hpq : p.time ≤ q.time) :
    q.cost ≤ available limit (some (.since limit (p.hit key).toReading tokens)) (q.hit key).toReading ↔
      p.time + (q.cost - tokens) / limit.refillPerSec ≤ q.time := by
  have hrate := limit.refill_pos
  have helapsed : max 0 ((q.hit key).now - (p.hit key).now) = q.time - p.time := max_eq_right (sub_nonneg.mpr hpq)
  unfold available Bucket.since
  simp only [helapsed]
  split_ifs with hlive
  · rw [le_min_iff, and_iff_right q.cost_le, ← sub_le_iff_le_add', ← div_le_iff₀ hrate, le_sub_iff_add_le']
  · have hfull := (agrees key hpq).2 (not_lt.mp hlive)
    have hwait : (q.cost - tokens) / limit.refillPerSec ≤ limit.capacity / limit.refillPerSec :=
      div_le_div_of_nonneg_right (by linarith [q.cost_le]) hrate.le
    refine iff_of_true q.cost_le ?_
    change limit.capacity / limit.refillPerSec ≤ q.time - p.time at hfull
    linarith

/-! ### Expiry -/

theorem ttl_pos : 0 < limit.ttl := by
  have hceil : 0 ≤ ⌈limit.capacity / limit.refillPerSec⌉ :=
    Int.ceil_nonneg (div_nonneg limit.capacity_pos.le limit.refill_pos.le)
  unfold Limit.ttl
  omega

/-- Whether a bucket has expired since the last hit makes no difference to what the next hit finds. -/
theorem available_kept {p q : Request limit} {tokens : ℚ} (ht : 0 ≤ tokens) (hpq : p.time ≤ q.time) :
    available limit (some (.since limit (p.hit key).toReading tokens)) (q.hit key).toReading =
      available limit (some (.since limit (p.kept key).toReading tokens)) (q.kept key).toReading := by
  have hkept : (0 : Nat) < deadline 0 limit.ttl := by
    have := @ttl_pos limit
    unfold deadline
    omega
  by_cases hlive : (q.hit key).clock < deadline (p.hit key).clock limit.ttl
  · simp only [available, Bucket.since, hlive, if_true]
    exact (if_pos hkept).symm
  · have hfull : limit.capacity / limit.refillPerSec ≤ q.time - p.time := (agrees key hpq).2 (not_lt.mp hlive)
    have hrefill : limit.capacity ≤ (q.time - p.time) * limit.refillPerSec := (div_le_iff₀ limit.refill_pos).mp hfull
    simp only [available, Bucket.since, hlive, if_false]
    refine Eq.trans ?_ (if_pos hkept).symm
    exact ((congrArg (fun x => min limit.capacity (tokens + x * limit.refillPerSec))
      (max_eq_right (sub_nonneg.mpr hpq))).trans (min_eq_left (by linarith))).symm

theorem answers_kept : ∀ {qs : List (Request limit)} {p : Request limit} {s s' : Store ℚ} {tokens : ℚ},
    Holds limit key s (some (p.hit key).toReading) tokens → Holds limit key s' (some (p.kept key).toReading) tokens →
    (p :: qs).IsChain (·.time ≤ ·.time) →
    answers limit (qs.map (Request.hit key)) s = answers limit (qs.map (Request.kept key)) s'
  | [], _, _, _, _, _, _, _ => rfl
  | q :: qs, p, s, s', tokens, hs, hs', hchain => by
    obtain ⟨hpq, hrest⟩ := List.isChain_cons_cons.mp hchain
    have hfinds : available limit (bucketOf limit (some (p.hit key).toReading) tokens) (q.hit key).toReading =
        available limit (bucketOf limit (some (p.kept key).toReading) tokens) (q.kept key).toReading :=
      available_kept hs.nonneg hpq
    have hleaves : left limit (bucketOf limit (some (p.hit key).toReading) tokens) (q.hit key) =
        left limit (bucketOf limit (some (p.kept key).toReading) tokens) (q.kept key) := by
      unfold left
      rw [hfinds]
      rfl
    have hwaits : wait limit (bucketOf limit (some (p.hit key).toReading) tokens) (q.hit key) =
        wait limit (bucketOf limit (some (p.kept key).toReading) tokens) (q.kept key) := by
      unfold wait
      rw [hfinds]
      rfl
    have hstep : (hit limit (q.hit key) s).1 = (hit limit (q.kept key) s').1 := by
      rw [hit_answer (h := q.hit key) hs.stores, hit_answer (h := q.kept key) hs'.stores, hfinds, hleaves, hwaits]
      rfl
    have hq := Holds.hit (h := q.hit key) hs
    have hq' := Holds.hit (h := q.kept key) hs'
    rw [← hleaves] at hq'
    simp only [List.map_cons, answers]
    rw [hstep, answers_kept hq hq' hrest]

/-! ### The whole -/

theorem remaining_nonneg : ∀ {qs : List (Request limit)} {s : Store ℚ} {last : Option Reading} {tokens : ℚ},
    Holds limit key s last tokens → ∀ a ∈ answers limit (qs.map (Request.hit key)) s, ∃ d, a = some d ∧ 0 ≤ d.remaining
  | [], _, _, _, _ => List.forall_mem_nil _
  | q :: qs, _, _, _, hs => by
    have hq := Holds.hit (h := q.hit key) hs
    exact List.forall_mem_cons.mpr ⟨⟨_, hit_answer (h := q.hit key) hs.stores limit, Int.floor_nonneg.mpr hq.nonneg⟩,
      remaining_nonneg hq⟩

/-- What holds of the hits on one key. -/
structure IsHonest (key : String) (requests : List (Request limit)) : Prop where
  /-- In a window of any length no more is let in than a full bucket and the refill. -/
  window : ∀ start length, 0 ≤ length →
    admitted start (start + length) key requests ∅ ≤ limit.capacity + limit.refillPerSec * length
  remaining : ∀ a ∈ answers limit (requests.map (Request.hit key)) ∅, ∃ d, a = some d ∧ 0 ≤ d.remaining
  /-- A refused hit is let in when it is repeated after `wait` seconds or more, and not before; the caller is told to
      wait that long, in whole seconds. -/
  refused : ∀ before (q : Request limit) rest, requests = before ++ q :: rest → ∀ tokens wait s,
    script limit (q.hit key) (after limit (before.map (Request.hit key)) ∅) = some ((false, tokens, wait), s) →
      (∃ d, hit limit (q.hit key) (after limit (before.map (Request.hit key)) ∅) = (some d, s) ∧ d.allowed = false ∧
        d.retryAfter = ⌈wait⌉ ∧ d.retryAfterSeconds = ⌈wait⌉) ∧
      ∀ again : Request limit, again.cost = q.cost → q.time ≤ again.time →
        ((hit limit (again.hit key) s).1.any RateLimitDecision.allowed ↔ q.time + wait ≤ again.time)
  /-- The same is answered when no bucket ever expires. -/
  expiry : answers limit (requests.map (Request.hit key)) ∅ = answers limit (requests.map (Request.kept key)) ∅

/-- A wait that the script gives is what the tokens it leaves lack of the cost. -/
theorem script_refused {h : Hit} {s s' : Store ℚ} {b : Option Bucket} {tokens wait : ℚ} (hb : Stores s h.key b)
    (hs : script limit h s = some ((false, tokens, wait), s')) : left limit b h < h.cost ∧
      wait = (h.cost - left limit b h) / limit.refillPerSec ∧
      hit limit h s = (some ⟨false, ⌊left limit b h⌋, ⌈wait⌉, limit.capacity⟩, s') := by
  have hanswer := hit_answer hb limit
  have hs := (script_eq hb limit).symm.trans hs
  obtain ⟨⟨hd, rfl, rfl⟩, rfl⟩ : (decide (h.cost ≤ available limit b h.toReading) = false ∧ left limit b h = tokens ∧
      Core.wait limit b h = wait) ∧ (hit limit h s).2 = s' := by simpa using hs
  have hc := of_decide_eq_false hd
  have hleft : left limit b h = available limit b h.toReading := by rw [left, if_neg hc, sub_zero]
  rw [hd] at hanswer
  exact ⟨hleft ▸ not_le.mp hc, by rw [Core.wait, if_neg hc, hleft], Prod.ext hanswer rfl⟩

theorem isHonest (key : String) (requests : List (Request limit)) (htimes : requests.IsChain (·.time ≤ ·.time)) :
    IsHonest key requests where
  window start length hlength := admitted_le hlength Holds.empty htimes
  remaining := remaining_nonneg Holds.empty
  refused before q rest _ tokens wait s hs := by
    obtain ⟨last, tokens, hb⟩ := @Holds.run limit key before _ _ _ Holds.empty
    obtain ⟨hlack, hwait, hrefused⟩ := script_refused (h := q.hit key) hb.stores hs
    have hq := Holds.hit (h := q.hit key) hb
    rw [hrefused] at hq
    have hpos : 0 < wait := hwait ▸ div_pos (sub_pos.mpr hlack) limit.refill_pos
    refine ⟨⟨_, hrefused, rfl, max_eq_right (Int.add_one_le_iff.mpr (Int.ceil_pos.mpr hpos)), rfl⟩,
      fun again hcost hlater => ?_⟩
    have henough := @enough_iff limit key q again _ hq.nonneg hlater
    rw [(hit_spec (h := again.hit key) hq.stores limit).1, decide_eq_true_iff, hwait,
      show (q.hit key).cost = again.cost from hcost.symm]
    exact henough
  expiry := by
    cases requests with
    | nil => rfl
    | cons q qs =>
      have hs := Holds.hit (h := q.hit key) (@Holds.empty limit key)
      have hs' := Holds.hit (h := q.kept key) (@Holds.empty limit key)
      have hstep : (hit limit (q.hit key) ∅).1 = (hit limit (q.kept key) ∅).1 :=
        (hit_answer (h := q.hit key) (@Holds.empty limit key).stores limit).trans
          (hit_answer (h := q.kept key) (@Holds.empty limit key).stores limit).symm
      exact congrArg₂ List.cons hstep (@answers_kept limit key _ q _ _ _ hs hs' htimes)

/-- A key that is polled twice a second, and once more when its bucket has expired. -/
def polls : List (Request single) :=
  [⟨0, 1, by decide, by decide +kernel, le_rfl⟩, ⟨1 / 2, 1, by decide +kernel, by decide +kernel, le_rfl⟩,
    ⟨1, 1, by decide, by decide +kernel, le_rfl⟩, ⟨100, 1, by decide +kernel, by decide +kernel, le_rfl⟩]

theorem isHonest_polls : IsHonest "k" polls := isHonest "k" polls (by decide +kernel)

end NexusGate.Core
