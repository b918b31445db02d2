import Mathlib.Tactic.FieldSimp
import Mathlib.Tactic.Linarith
import Mathlib.Tactic.Ring
import NexusGate.Core.RateLimit

/-! # What a bucket lets through

The script stores `now` as the bucket's time even when it is earlier than the time that is stored, so a
replica whose clock is behind rewinds the bucket and the same seconds are credited again. The credit of a
sequence of hits is a matter of the clock readings alone; the allowed cost is at most the capacity and
the refill for that credit, and hits that always take all there is reach it. -/

namespace NexusGate.Core
open Redis

variable {limit : Limit}

/-! ### Buckets -/

/-- The time to live of a bucket, in seconds. -/
def Limit.ttl (limit : Limit) : Nat := (⌈limit.capacity / limit.refillPerSec⌉ + 60).toNat

/-- A bucket as Redis holds it. -/
structure Bucket where
  tokens : ℚ
  ts : ℚ
  expiresAt : Nat

/-- The bucket of a key that was hit at `r`. -/
def Bucket.since (limit : Limit) (r : Reading) (tokens : ℚ) : Bucket := ⟨tokens, r.now, deadline r.clock limit.ttl⟩

/-- The tokens that a hit finds. -/
def available (limit : Limit) (b : Option Bucket) (r : Reading) : ℚ :=
  match b with
  | none => limit.capacity
  | some b => if r.clock < b.expiresAt then min limit.capacity (b.tokens + max 0 (r.now - b.ts) * limit.refillPerSec)
    else limit.capacity

/-- The tokens that a hit leaves. -/
def left (limit : Limit) (b : Option Bucket) (h : Hit) : ℚ :=
  available limit b h.toReading - if h.cost ≤ available limit b h.toReading then h.cost else 0

/-- What is stored for a key. -/
def Stores (s : Store ℚ) (key : String) : Option Bucket → Prop
  | none => s.lookup (bucketKey key) = none
  | some b => ∃ fields, s.lookup (bucketKey key) = some ⟨.hash fields, some b.expiresAt⟩ ∧
      fields.lookup "tokens" = some b.tokens ∧ fields.lookup "ts" = some b.ts

theorem bucketKey_inj {k k' : String} (h : bucketKey k = bucketKey k') : k = k' := (String.append_right_inj _).mp h

/-- What a hit reads. -/
def found (limit : Limit) (b : Option Bucket) (r : Reading) : ℚ × ℚ :=
  match b with
  | none => (limit.capacity, r.now)
  | some b => if r.clock < b.expiresAt then (b.tokens, b.ts) else (limit.capacity, r.now)

theorem available_eq {b : Option Bucket} {r : Reading} : available limit b r =
    min limit.capacity ((found limit b r).1 + max 0 (r.now - (found limit b r).2) * limit.refillPerSec) := by
  cases b with
  | none => simp [available, found]
  | some b =>
    by_cases h : r.clock < b.expiresAt
    · simp [available, found, h]
    · simp [available, found, h]

/-- The stored hash, and whether it is still there. -/
theorem Stores.entry {s : Store ℚ} {r : Reading} {b : Option Bucket} (hb : Stores s r.key b) (limit : Limit) :
    (live? r.clock s (bucketKey r.key) = none ∧ found limit b r = (limit.capacity, r.now)) ∨
      ∃ fields x, live? r.clock s (bucketKey r.key) = some ⟨.hash fields, some x⟩ ∧ r.clock < x ∧
        fields.lookup "tokens" = some (found limit b r).1 ∧ fields.lookup "ts" = some (found limit b r).2 := by
  cases b with
  | none =>
    refine Or.inl ⟨?_, rfl⟩
    rw [live?, show s.lookup (bucketKey r.key) = none from hb, Option.filter_none]
  | some b =>
    obtain ⟨fields, hl, ht, hts⟩ := hb
    by_cases h : r.clock < b.expiresAt
    · exact Or.inr ⟨fields, b.expiresAt, by simp [live?, hl, Entry.live, Option.filter, h], h, by simpa [found, h],
        by simpa [found, h]⟩
    · exact Or.inl ⟨by simp [live?, hl, Entry.live, Option.filter, h], by simp [found, h]⟩

theorem Stores.read {s : Store ℚ} {r : Reading} {b : Option Bucket} (hb : Stores s r.key b) :
    readBucket r.clock (bucketKey r.key) limit.capacity r.now s = some (found limit b r) := by
  rcases hb.entry limit with ⟨he, hf⟩ | ⟨fields, x, he, -, ht, hts⟩
  · simp [readBucket, exec, value?, he, hf]
  · simp [readBucket, exec, value?, he, ht, hts]

/-- What `HSET` and `EXPIRE` leave of the bucket. -/
theorem Stores.write {s : Store ℚ} {r : Reading} {b : Option Bucket} (hb : Stores s r.key b) (limit : Limit) (tokens : ℚ) :
    Stores (writeBucket r.clock (bucketKey r.key) limit.capacity limit.refillPerSec r.now tokens s) r.key
      (some (.since limit r tokens)) := by
  let put (h : AList fun _ : String => ℚ) : AList fun _ : String => ℚ :=
    [("tokens", tokens), ("ts", r.now)].foldl (fun h f => h.insert f.1 f.2) h
  have hset : ∃ h x, (exec r.clock (.hset (bucketKey r.key) [("tokens", tokens), ("ts", r.now)]) s).2 =
      s.insert (bucketKey r.key) ⟨.hash (put h), x⟩ ∧ (⟨.hash (put h), x⟩ : Entry ℚ).live r.clock = true := by
    rcases hb.entry limit with ⟨he, -⟩ | ⟨fields, x, he, hx, -, -⟩
    · exact ⟨∅, _, exec_hset_hash (by simp) (Or.inl ⟨by simp [value?, he], rfl⟩), by simp [he, Entry.live]⟩
    · exact ⟨fields, _, exec_hset_hash (by simp) (Or.inr (by simp [value?, he])), by simp [he, Entry.live, hx]⟩
  obtain ⟨h, x, hs, hlive⟩ := hset
  have hexp := exec_expire_live (n := limit.ttl) (live?_insert (s := s) (k := bucketKey r.key) hlive)
  refine ⟨put h, ?_, ?_, ?_⟩
  · rw [writeBucket, hs]
    exact (congrArg (fun o => (Prod.snd o).lookup (bucketKey r.key)) hexp).trans (AList.lookup_insert _)
  · exact (AList.lookup_insert_ne (show "tokens" ≠ "ts" by decide)).trans (AList.lookup_insert _)
  · exact AList.lookup_insert _

/-- The script reads the bucket of the key and writes it. -/
theorem hit_spec {h : Hit} {s : Store ℚ} {b : Option Bucket} (hb : Stores s h.key b) (limit : Limit) :
    (hit limit h s).1.any RateLimitDecision.allowed = decide (h.cost ≤ available limit b h.toReading) ∧
      Stores (hit limit h s).2 h.key (some (.since limit h.toReading (left limit b h))) := by
  have hwrite := hb.write limit (left limit b h)
  simp only [hit, tokenBucketLua, hb.read, Option.map_some, ← available_eq]
  by_cases hc : h.cost ≤ available limit b h.toReading
  · simp only [left, hc, if_true] at hwrite ⊢
    exact ⟨by simp, hwrite⟩
  · simp only [left, hc, if_false, sub_zero] at hwrite ⊢
    exact ⟨by simp, hwrite⟩

theorem hit_frame {h : Hit} {s : Store ℚ} {k : String} (hk : k ≠ bucketKey h.key) :
    (hit limit h s).2.lookup k = s.lookup k := by
  have hwrite : ∀ tokens, (writeBucket h.clock (bucketKey h.key) limit.capacity limit.refillPerSec h.now tokens
      s).lookup k = s.lookup k := fun tokens => by
    rw [writeBucket, exec_frame (by simpa [Cmd.writes] using hk), exec_frame (by simpa [Cmd.writes] using hk)]
  unfold hit tokenBucketLua
  cases readBucket h.clock (bucketKey h.key) limit.capacity h.now s with
  | none => rfl
  | some o =>
    simp only [Option.map_some]
    split_ifs <;> exact hwrite _

/-! ### One bucket -/

/-- The bucket of a key after a hit. -/
def Bucket.next (limit : Limit) (b : Option Bucket) (h : Hit) : Option Bucket :=
  some (.since limit h.toReading (left limit b h))

/-- What the hits on one bucket take out of it. -/
def Bucket.spent (limit : Limit) : Option Bucket → List Hit → ℚ
  | _, [] => 0
  | b, h :: hs => (if h.cost ≤ available limit b h.toReading then h.cost else 0) + spent limit (next limit b h) hs

/-- The reading is of that key. -/
def onKey (key : String) (r : Reading) : Bool := r.key == key

/-- The hits on a key see nothing but its own bucket. -/
theorem spent_eq {limits : String → Limit} {key : String} {b : Option Bucket} : ∀ {hits : List Hit} {s : Store ℚ},
    Stores s key b → spent limits key hits s =
      Bucket.spent (limits key) b (hits.filter fun h => onKey key h.toReading)
  | [], _, _ => rfl
  | h :: hs, s, hb => by
    by_cases hk : h.key = key
    · subst hk
      obtain ⟨hd, hb'⟩ := hit_spec hb (limits h.key)
      rw [List.filter_cons_of_pos (by simp [onKey])]
      simp only [spent, Bucket.spent, hd, true_and, decide_eq_true_eq]
      rw [spent_eq hb']
      rfl
    · have hb' : Stores (hit (limits h.key) h s).2 key b := by
        have hl : (hit (limits h.key) h s).2.lookup (bucketKey key) = s.lookup (bucketKey key) :=
          hit_frame fun he => hk (bucketKey_inj he).symm
        cases b with
        | none => exact hl.trans hb
        | some b =>
          obtain ⟨fields, hf, hrest⟩ := hb
          exact ⟨fields, hl.trans hf, hrest⟩
      rw [List.filter_cons_of_neg (by simpa [onKey] using hk)]
      simp only [spent, hk, false_and, if_false, zero_add]
      exact spent_eq hb'

/-! ### Credit -/

/-- The seconds that a hit at `r` is credited after one at `p`: what `now` moved on, as far as it fills the
    bucket, and all it takes to fill it when the bucket has expired. -/
def credit (limit : Limit) (p r : Reading) : ℚ :=
  if r.clock < deadline p.clock limit.ttl then min (max 0 (r.now - p.now)) (limit.capacity / limit.refillPerSec)
  else limit.capacity / limit.refillPerSec

/-- What a bucket is credited with over readings that follow `p`. -/
def creditsFrom (limit : Limit) : Reading → List Reading → ℚ
  | _, [] => 0
  | p, r :: rs => credit limit p r + creditsFrom limit r rs

/-- The first hit finds a full bucket, each later one is credited. -/
def credits (limit : Limit) : List Reading → ℚ
  | [] => 0
  | r :: rs => creditsFrom limit r rs

theorem refill_div : limit.refillPerSec * (limit.capacity / limit.refillPerSec) = limit.capacity :=
  mul_div_cancel₀ _ limit.refill_pos.ne'

theorem refill_mul_credit {p r : Reading} : limit.refillPerSec * credit limit p r =
    available limit (some (.since limit p 0)) r := by
  unfold credit available Bucket.since
  simp only
  split_ifs
  · rw [mul_min_of_nonneg _ _ limit.refill_pos.le, refill_div, zero_add, min_comm, mul_comm]
  · exact refill_div

theorem available_nonneg {b : Option Bucket} {r : Reading} (hb : ∀ x, b = some x → 0 ≤ x.tokens) :
    0 ≤ available limit b r := by
  have hcap := limit.capacity_pos.le
  cases b with
  | none => exact hcap
  | some b =>
    unfold available
    simp only
    split_ifs
    · exact le_min hcap (add_nonneg (hb b rfl) (mul_nonneg (le_max_left _ _) limit.refill_pos.le))
    · exact hcap

/-- Tokens that are left count as they are, and the rest of a bucket is credited. -/
theorem available_le (limit : Limit) (p r : Reading) {tokens : ℚ} (ht : 0 ≤ tokens) :
    available limit (some (.since limit p tokens)) r ≤ tokens + limit.refillPerSec * credit limit p r := by
  rw [refill_mul_credit]
  unfold available Bucket.since
  simp only
  split_ifs
  · rw [← min_add_add_left, zero_add]
    exact min_le_min (le_add_of_nonneg_left ht) le_rfl
  · exact le_add_of_nonneg_left ht

theorem left_nonneg {b : Option Bucket} {h : Hit} (hb : ∀ x, b = some x → 0 ≤ x.tokens) : 0 ≤ left limit b h := by
  have : 0 ≤ available limit b h.toReading := available_nonneg hb
  unfold left
  split_ifs with hc
  · linarith
  · linarith

theorem taken_add_left (limit : Limit) (b : Option Bucket) (h : Hit) :
    (if h.cost ≤ available limit b h.toReading then h.cost else 0) + left limit b h = available limit b h.toReading :=
  add_sub_cancel _ _

/-- The tokens of a bucket, and the refill for the credit, are all that later hits can take. -/
theorem spent_le (limit : Limit) : ∀ (hits : List Hit) (p : Reading) {tokens : ℚ}, 0 ≤ tokens →
    Bucket.spent limit (some (.since limit p tokens)) hits ≤
      tokens + limit.refillPerSec * creditsFrom limit p (hits.map Hit.toReading)
  | [], _, _, ht => by simpa [Bucket.spent, creditsFrom] using ht
  | h :: hs, p, tokens, ht => by
    have hleft : 0 ≤ left limit (some (.since limit p tokens)) h := left_nonneg fun x hx => by
      cases hx
      exact ht
    have ih := spent_le limit hs h.toReading hleft
    have havail := available_le limit p h.toReading ht
    have htake := taken_add_left limit (some (.since limit p tokens)) h
    simp only [Bucket.spent, Bucket.next, List.map_cons, creditsFrom]
    rw [mul_add]
    linarith

/-! ### Draining -/

/-- Hits that always take all there is. -/
def drainFrom (limit : Limit) : Reading → List Reading → List Hit
  | _, [] => []
  | p, r :: rs => ⟨r, limit.refillPerSec * credit limit p r⟩ :: drainFrom limit r rs

/-- The hits that take all that there is, at the given readings. -/
def drain (limit : Limit) : List Reading → List Hit
  | [] => []
  | r :: rs => ⟨r, limit.capacity⟩ :: drainFrom limit r rs

theorem drainFrom_readings : ∀ {rs : List Reading} {p : Reading}, (drainFrom limit p rs).map Hit.toReading = rs
  | [], _ => rfl
  | r :: _, _ => congrArg (r :: ·) drainFrom_readings

theorem drain_readings (limit : Limit) : ∀ rs : List Reading, (drain limit rs).map Hit.toReading = rs
  | [] => rfl
  | r :: _ => congrArg (r :: ·) drainFrom_readings

theorem left_all {b : Option Bucket} {h : Hit} (hc : h.cost = available limit b h.toReading) : left limit b h = 0 := by
  rw [left, hc, if_pos le_rfl, sub_self]

theorem spent_drainFrom : ∀ {rs : List Reading} {p : Reading},
    Bucket.spent limit (some (.since limit p 0)) (drainFrom limit p rs) = limit.refillPerSec * creditsFrom limit p rs
  | [], _ => (mul_zero _).symm
  | r :: rs, p => by
    simp only [drainFrom, Bucket.spent, Bucket.next, creditsFrom]
    rw [left_all refill_mul_credit, if_pos refill_mul_credit.le, spent_drainFrom, mul_add]

theorem spent_drain {r : Reading} {rs : List Reading} : Bucket.spent limit none (drain limit (r :: rs)) =
    limit.capacity + limit.refillPerSec * credits limit (r :: rs) := by
  simp only [drain, Bucket.spent, Bucket.next]
  rw [left_all rfl, spent_drainFrom]
  exact congrArg (· + _) (if_pos le_rfl)

/-- Hits on one key, with hits on the others between them. -/
theorem exists_hits {q : Reading → Bool} : ∀ {readings : List Reading} {hs : List Hit},
    hs.map Hit.toReading = readings.filter q →
    ∃ hits : List Hit, hits.map Hit.toReading = readings ∧ (hits.filter fun h => q h.toReading) = hs
  | [], hs, h => ⟨[], rfl, (List.map_eq_nil_iff.mp h).symm⟩
  | r :: rs, hs, h => by
    by_cases hr : q r
    · rw [List.filter_cons_of_pos hr] at h
      obtain ⟨h₀, hs', rfl, rfl, htail⟩ := List.map_eq_cons_iff.mp h
      obtain ⟨hits, hmap, rfl⟩ := exists_hits htail
      exact ⟨h₀ :: hits, by rw [List.map_cons, hmap], List.filter_cons_of_pos hr⟩
    · rw [List.filter_cons_of_neg hr] at h
      obtain ⟨hits, hmap, rfl⟩ := exists_hits h
      exact ⟨⟨r, 0⟩ :: hits, by rw [List.map_cons, hmap], List.filter_cons_of_neg hr⟩

/-! ### The bound -/

/-- The largest `now` less the smallest. -/
def span : List Reading → ℚ
  | [] => 0
  | r :: rs => rs.foldl (fun m r => max m r.now) r.now - rs.foldl (fun m r => min m r.now) r.now

/-- Whatever they cost, hits at these readings never get more than the capacity and the refill for the time
    between the smallest and the largest `now` of the key. -/
def NeverOverspends (limits : String → Limit) (key : String) (readings : List Reading) : Prop :=
  ∀ hits : List Hit, hits.map Hit.toReading = readings → spent limits key hits ∅ ≤
    (limits key).capacity + (limits key).refillPerSec * span (readings.filter (onKey key))

theorem filter_readings {q : Reading → Bool} {hits : List Hit} :
    (hits.filter fun h => q h.toReading).map Hit.toReading = (hits.map Hit.toReading).filter q := by
  rw [List.filter_map]
  rfl

/-- The bound holds exactly when the key's hits are credited no more than that time. -/
theorem neverOverspends_iff (limits : String → Limit) (key : String) (readings : List Reading) :
    NeverOverspends limits key readings ↔
      credits (limits key) (readings.filter (onKey key)) ≤ span (readings.filter (onKey key)) := by
  have hrate := (limits key).refill_pos
  have hempty : Stores ∅ key none := rfl
  constructor
  · intro h
    obtain ⟨hits, hmap, hfilter⟩ := exists_hits (q := onKey key)
      (drain_readings (limits key) (readings.filter (onKey key)))
    have hbound := h hits hmap
    rw [spent_eq hempty, hfilter] at hbound
    cases hr : readings.filter (onKey key) with
    | nil => exact le_rfl
    | cons r rs =>
      rw [hr, spent_drain] at hbound
      exact le_of_mul_le_mul_left (by linarith) hrate
  · rintro h hits rfl
    rw [spent_eq hempty]
    rw [← filter_readings] at h ⊢
    cases hf : hits.filter fun h => onKey key h.toReading with
    | nil => simpa [Bucket.spent, span] using (limits key).capacity_pos.le
    | cons h₀ hs =>
      rw [hf] at h
      have hmul := mul_le_mul_of_nonneg_left h hrate.le
      have hleft : 0 ≤ left (limits key) none h₀ := left_nonneg nofun
      have hspent := spent_le (limits key) hs h₀.toReading hleft
      have htake := taken_add_left (limits key) none h₀
      have hfull : available (limits key) none h₀.toReading = (limits key).capacity := rfl
      simp only [Bucket.spent, Bucket.next]
      simp only [List.map_cons, credits] at hmul ⊢
      linarith

/-! ### Replicas that agree -/

/-- The clock moved on, and filled the bucket if it has expired. -/
def Agrees (limit : Limit) (p r : Reading) : Prop :=
  p.now ≤ r.now ∧ (deadline p.clock limit.ttl ≤ r.clock → limit.capacity / limit.refillPerSec ≤ r.now - p.now)

theorem credit_le_elapsed {p r : Reading} (h : Agrees limit p r) : credit limit p r ≤ r.now - p.now := by
  unfold credit
  split_ifs with hc
  · exact (min_le_left _ _).trans (max_eq_right (sub_nonneg.mpr h.1)).le
  · exact h.2 (not_lt.mp hc)

theorem creditsFrom_le : ∀ {rs : List Reading} {p : Reading}, (p :: rs).IsChain (Agrees limit) →
    creditsFrom limit p rs ≤ rs.foldl (fun m r => max m r.now) p.now - p.now
  | [], p, _ => (sub_self p.now).ge
  | r :: rs, p, hchain => by
    obtain ⟨hpr, hrest⟩ := List.isChain_cons_cons.mp hchain
    have ih := creditsFrom_le hrest
    have hstep := credit_le_elapsed hpr
    simp only [creditsFrom, List.foldl_cons, max_eq_right hpr.1]
    linarith

theorem foldl_min_le : ∀ (rs : List Reading) {m : ℚ}, rs.foldl (fun m r => min m r.now) m ≤ m
  | [], _ => le_rfl
  | _ :: rs, _ => (foldl_min_le rs).trans (min_le_left _ _)

/-- Replicas whose clocks agree with each other and with Redis are within the bound. -/
theorem credits_le_span {rs : List Reading} (h : rs.IsChain (Agrees limit)) : credits limit rs ≤ span rs := by
  cases rs with
  | nil => exact le_rfl
  | cons r rs => exact (creditsFrom_le h).trans (sub_le_sub_left (foldl_min_le rs) _)

/-! ### A replica whose clock is behind -/

/-- One key, one token, one token a second. -/
def single : Limit := ⟨1, 1, one_pos, one_pos⟩

/-- Two replicas whose clocks are a second apart take turns. -/
def turns : List Hit := [1, 0, 1, 0, 1].map fun now => ⟨⟨"k", 0, now⟩, 1⟩

/-- Three tokens within a second, where two are allowed for. -/
theorem not_neverOverspends : ¬NeverOverspends (fun _ => single) "k" (turns.map Hit.toReading) := by
  intro h
  have hbound := h turns rfl
  revert hbound
  decide +kernel

end NexusGate.Core
