import Mathlib.Algebra.Order.BigOperators.Group.List
import Mathlib.Algebra.Ring.Subring.Basic
import Mathlib.Tactic.Linarith
import NexusGate.Api.Account

/-! # What the commands of a call add up to

Every prefix of the commands of one call counts a request before it counts its kind, and a cost before it counts where the
cost arose. Amounts with that property are closed under addition, and a row that holds such amounts can be read. -/

namespace NexusGate.Core.Metering
open Async Async.System Redis Gateway.Chat

/-! ### Rows -/

/-- No clamp of the row hides anything. -/
structure DailyUsage.Partitioned (u : DailyUsage) : Prop where
  kinds : u.cacheHits + u.selfHostedRequests ≤ u.requests
  costs : u.selfHostedCostUsd ≤ u.costUsd
  requests : u.cacheHits + u.selfHostedRequests + u.providerRequests = u.requests
  providerCost : u.providerCostUsd = roundTo 8 (u.costUsd - u.selfHostedCostUsd)

theorem DailyUsage.partitioned {u : DailyUsage} (hkinds : u.cacheHits + u.selfHostedRequests ≤ u.requests)
    (hcosts : u.selfHostedCostUsd ≤ u.costUsd) : u.Partitioned where
  kinds := hkinds
  costs := hcosts
  requests := by
    rw [providerRequests, max_eq_right (by omega)]
    omega
  providerCost := by rw [providerCostUsd, max_eq_right (sub_nonneg.mpr hcosts)]

/-- Rounding keeps the order. -/
theorem roundTo_le {n : Nat} {x y : ℚ} (h : x ≤ y) : roundTo n x ≤ roundTo n y := by
  have hpos : (0 : ℚ) < 10 ^ n := by positivity
  have hscaled : x * 10 ^ n ≤ y * 10 ^ n := mul_le_mul_of_nonneg_right h hpos.le
  unfold roundTo
  refine div_le_div_of_nonneg_right (Int.cast_le.mpr ?_) hpos.le
  generalize x * 10 ^ n = a at hscaled ⊢
  generalize y * 10 ^ n = b at hscaled ⊢
  rcases lt_or_eq_of_le (Int.floor_le_floor hscaled) with hlt | heq
  · split <;> split <;> omega
  · rw [heq]
    have hrest : a - ⌊b⌋ ≤ b - ⌊b⌋ := sub_le_sub_right hscaled _
    split
    · split <;> omega
    · rename_i ha
      rw [if_neg]
      rintro (hb | ⟨hb, heven⟩)
      · exact ha (Or.inl (lt_of_le_of_lt hrest hb))
      · rcases lt_or_eq_of_le (hb ▸ hrest) with hlt | heq
        · exact ha (Or.inl hlt)
        · exact ha (Or.inr ⟨heq, heven⟩)

theorem totals_partitioned {date : Date} {rows : List DailyUsage} (h : ∀ u ∈ rows, u.Partitioned) :
    (totals date rows).Partitioned := by
  have hkinds : (rows.map DailyUsage.cacheHits).sum + (rows.map DailyUsage.selfHostedRequests).sum ≤
      (rows.map DailyUsage.requests).sum := by
    rw [← List.sum_map_add]
    exact List.sum_le_sum fun u hu => (h u hu).kinds
  have hcosts : (rows.map DailyUsage.selfHostedCostUsd).sum ≤ (rows.map DailyUsage.costUsd).sum :=
    List.sum_le_sum fun u hu => (h u hu).costs
  exact DailyUsage.partitioned hkinds (roundTo_le hcosts)

/-! ### Amounts -/

/-- A number for every field of a hash. -/
abbrev Amounts := String → ℚ

/-- The fields of a stored row, read as numbers. -/
def amounts (row : Row) : Amounts := floatField row

/-- What a command adds to the fields of its key. -/
def adds : Cmd ℚ → Amounts
  | .hincrby _ f n => Pi.single f (n : ℚ)
  | .hincrbyfloat _ f q => Pi.single f q
  | _ => 0

/-- What a batch of commands adds to each field. -/
def effect (cs : List (Cmd ℚ)) : Amounts := (cs.map adds).sum

/-- The fields that hold whole numbers. -/
def counts : List String := ["requests", "cache_hits", "prompt_tokens", "completion_tokens", "self_hosted_requests"]

/-- The integers. -/
def wholes : Subring ℚ := (Int.castRingHom ℚ).range

/-- Amounts that a row may show. -/
def sound : AddSubmonoid Amounts where
  carrier := {v | (∀ f ∈ counts, v f ∈ wholes) ∧ v "cache_hits" + v "self_hosted_requests" ≤ v "requests" ∧
    v "self_hosted_cost_usd" ≤ v "cost_usd"}
  zero_mem' := ⟨fun _ _ => zero_mem _, by simp, by simp⟩
  add_mem' := by
    rintro v w ⟨hv, hvk, hvc⟩ ⟨hw, hwk, hwc⟩
    refine ⟨fun f hf => add_mem (hv f hf) (hw f hf), ?_, ?_⟩
    · simp only [Pi.add_apply]
      linarith
    · simp only [Pi.add_apply]
      linarith

/-- A sound row can be read. -/
theorem dailyUsage_sound {row : Row} (h : amounts row ∈ sound) (date : Date) :
    ∃ u, dailyUsage date row = .ok u ∧ u.Partitioned := by
  obtain ⟨hint, hkinds, hcosts⟩ := h
  have hfield : ∀ f ∈ counts, ∃ n : Int, intField row f = .ok n ∧ amounts row f = n := by
    intro f hf
    obtain ⟨n, hn⟩ := hint f hf
    obtain hn : amounts row f = n := hn.symm
    refine ⟨n, ?_, hn⟩
    unfold intField
    unfold amounts floatField at hn
    cases hl : row.lookup f with
    | none =>
      rw [hl] at hn
      exact congrArg Except.ok (Int.cast_eq_zero.mp hn.symm).symm
    | some q =>
      rw [hl] at hn
      obtain rfl : q = n := hn
      rfl
  obtain ⟨requests, hr, hr'⟩ := hfield "requests" (by decide)
  obtain ⟨hits, hh, hh'⟩ := hfield "cache_hits" (by decide)
  obtain ⟨prompt, hp, -⟩ := hfield "prompt_tokens" (by decide)
  obtain ⟨completion, hc, -⟩ := hfield "completion_tokens" (by decide)
  obtain ⟨hosted, hs, hs'⟩ := hfield "self_hosted_requests" (by decide)
  refine ⟨_, by rw [dailyUsage, hr, hh, hp, hc, hs]; rfl, DailyUsage.partitioned ?_ hcosts⟩
  rw [hr', hh', hs'] at hkinds
  exact_mod_cast hkinds

/-! ### Commands -/

section Commands
variable {meter : UsageMeter} {r : Recording} {n : Nat} {cmd : Cmd ℚ}

/-- A command that counts on a field. -/
inductive Increments (key : String) : Cmd ℚ → Prop
  | hincrby {f : String} {n : Int} (h : f ∈ counts) : Increments key (.hincrby key f n)
  | hincrbyfloat {f : String} {q : ℚ} : Increments key (.hincrbyfloat key f q)

/-- The last command of a call renews the time to live, the others count. -/
theorem commands_eq : ∃ init, meter.commands r = init ++ [.expire (usageKey r.keyId r.day) meter.retentionSeconds] ∧
    ∀ c ∈ init, Increments (usageKey r.keyId r.day) c := by
  refine ⟨_, rfl, ?_⟩
  simp only [List.mem_cons]
  rintro c (rfl | hc)
  · exact .hincrby (by decide)
  · cases hcached : r.usage.cached with
    | true =>
      rw [hcached, if_pos rfl] at hc
      simp only [List.mem_cons, List.not_mem_nil, or_false] at hc
      rcases hc with rfl | rfl
      · exact .hincrby (by decide)
      · exact .hincrbyfloat
    | false =>
      rw [hcached, if_neg Bool.false_ne_true, List.mem_append] at hc
      rcases hc with hc | hc
      · simp only [List.mem_cons, List.not_mem_nil, or_false] at hc
        rcases hc with rfl | rfl | rfl
        · exact .hincrby (by decide)
        · exact .hincrby (by decide)
        · exact .hincrbyfloat
      · split at hc
        · simp only [List.mem_cons, List.not_mem_nil, or_false] at hc
          rcases hc with rfl | rfl
          · exact .hincrby (by decide)
          · exact .hincrbyfloat
        · cases hc

theorem commands_get (h : (meter.commands r)[n]? = some cmd) :
    (n + 1 < (meter.commands r).length ∧ Increments (usageKey r.keyId r.day) cmd) ∨
      (n + 1 = (meter.commands r).length ∧ cmd = .expire (usageKey r.keyId r.day) meter.retentionSeconds) := by
  obtain ⟨init, heq, hinit⟩ := @commands_eq meter r
  rw [heq] at h ⊢
  rw [List.length_append, List.length_singleton]
  rcases Nat.lt_or_ge n init.length with hn | hn
  · rw [List.getElem?_append_left hn] at h
    exact Or.inl ⟨Nat.add_lt_add_right hn 1, hinit cmd (List.mem_of_getElem? h)⟩
  · rw [List.getElem?_append_right hn, List.getElem?_singleton] at h
    split at h
    · exact Or.inr ⟨by omega, (Option.some.inj h).symm⟩
    · cases h

theorem commands_length_pos : 0 < (meter.commands r).length := Nat.succ_pos _

theorem effect_take_succ {cs : List (Cmd ℚ)} (h : cs[n]? = some cmd) : effect (cs.take (n + 1)) = effect (cs.take n) + adds cmd := by
  rw [effect, List.take_add_one, h, List.map_append, List.sum_append]
  simp [effect]

/-- From `v`, every prefix of the commands leads to sound amounts. -/
def SoundAlong (v : Amounts) : List (Cmd ℚ) → Prop
  | [] => v ∈ sound
  | c :: cs => v ∈ sound ∧ SoundAlong (v + adds c) cs

theorem SoundAlong.take : ∀ {cs : List (Cmd ℚ)} {n : Nat} {v : Amounts}, SoundAlong v cs → v + effect (cs.take n) ∈ sound
  | [], n, v, h => by simpa [effect, SoundAlong] using h
  | c :: cs, 0, v, h => by simpa [effect] using h.1
  | c :: cs, n + 1, v, h => by
    have := SoundAlong.take (n := n) h.2
    rwa [add_assoc] at this

theorem soundAlong_commands : SoundAlong 0 (meter.commands r) := by
  have hcost := r.cost_nonneg
  unfold UsageMeter.commands
  cases r.usage.cached <;> cases r.usage.selfHosted
  all_goals simp [SoundAlong, sound, counts, adds, hcost]

/-- What a call has sent so far is sound. -/
theorem effect_take_sound : effect ((meter.commands r).take n) ∈ sound := by
  simpa using soundAlong_commands.take

theorem usageKey_inj {k k' : String} {d d' : Date} (h : usageKey k d = usageKey k' d') : k = k' ∧ d = d' := by
  have h := congrArg String.toList h
  simp only [usageKey, String.toList_append] at h
  obtain ⟨hkey, hdate⟩ := List.append_inj' h (by rw [Date.length_isoformat, Date.length_isoformat])
  have hkey := List.append_cancel_left (List.append_cancel_right hkey)
  exact ⟨String.toList_injective hkey, Date.isoformat_inj (String.toList_injective hdate)⟩

end Commands

/-! ### What a command does to a row -/

section Rows
variable {now : Nat} {store : Store ℚ} {key : String} {row : Row} {cmd : Cmd ℚ}

theorem amounts_insert {f : String} {q : ℚ} : amounts (row.insert f (amounts row f + q)) = amounts row + Pi.single f q := by
  funext f'
  by_cases hf : f' = f
  · subst hf
    simp [amounts, floatField]
  · simp [amounts, floatField, AList.lookup_insert_ne hf, Pi.single_eq_of_ne hf]

/-- The field of a row, as the counting commands read it. -/
theorem field_read {f : String} :
    (row.lookup f = none ∧ amounts row f = 0) ∨ ∃ b, row.lookup f = some b ∧ Payload.rat? b = some (amounts row f) := by
  unfold amounts floatField
  cases row.lookup f with
  | none => exact Or.inl ⟨rfl, rfl⟩
  | some q => exact Or.inr ⟨q, rfl, rfl⟩

theorem increments_row (h : Increments key cmd) (hrow : hash? now store key = some row) (hsound : amounts row ∈ sound) :
    ∃ row', hash? now (Redis.exec now cmd store).2 key = some row' ∧ amounts row' = amounts row + adds cmd := by
  cases h with
  | @hincrby f n hf =>
    obtain ⟨m, hm⟩ := hsound.1 f hf
    obtain hm : amounts row f = m := hm.symm
    have hread : (row.lookup f = none ∧ m = 0) ∨ ∃ b, row.lookup f = some b ∧ Payload.int? b = some m := by
      rcases @field_read row f with ⟨hl, h0⟩ | ⟨b, hl, hb⟩
      · exact Or.inl ⟨hl, Int.cast_eq_zero.mp (hm.symm.trans h0)⟩
      · obtain rfl : b = m := (Option.some.inj hb).trans hm
        exact Or.inr ⟨_, hl, rfl⟩
    refine ⟨_, (exec_hincrby_hash hrow hread).2, ?_⟩
    rw [show (Payload.ofInt (m + n) : ℚ) = amounts row f + n by rw [hm]; exact Int.cast_add m n]
    exact amounts_insert
  | hincrbyfloat => exact ⟨_, exec_hincrbyfloat_hash hrow field_read, amounts_insert⟩

theorem increments_writes (h : Increments key cmd) : cmd.writes = [key] := by cases h <;> rfl

end Rows

end NexusGate.Core.Metering
