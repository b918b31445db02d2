import NexusGate.Async.Pool

/-! # Counting along a run

What one call has done since it started, read off the trace, and how many steps of a run do a thing. -/

namespace Async.System
variable {S : System}

/-- The call that an event is about. -/
def Event.thread : S.Event → Nat
  | .start i _ | .did i _ _ _ | .ended i _ _ | .killed i _ => i

/-- What call `i` has done since it was last started, newest first. -/
def life (i : Nat) : List S.Event → List S.Event
  | [] => []
  | .start k _ :: tr => if k = i then [] else life i tr
  | v :: tr => if v.thread = i then v :: life i tr else life i tr

section Life
variable {i k : Nat} {c : S.Call} {tr : List S.Event}

@[simp] theorem life_start : life i (.start i c :: tr) = [] := if_pos rfl

@[simp] theorem life_did {e : S.Op} {r : Except S.Exn (S.Reply e)} : life i (.did i c e r :: tr) = .did i c e r :: life i tr :=
  if_pos rfl

@[simp] theorem life_ended {r : Except S.Exn S.Result} : life i (.ended i c r :: tr) = .ended i c r :: life i tr := if_pos rfl

@[simp] theorem life_killed : life i (.killed i c :: tr) = .killed i c :: life i tr := if_pos rfl

/-- What another call does is not part of it. -/
theorem life_other {v : S.Event} (hv : v.thread ≠ i) : life i (v :: tr) = life i tr := by
  cases v <;> exact if_neg hv

/-- Only a new start makes a call forget. -/
theorem mem_life_add {v x : S.Event} (hv : ∀ c, v ≠ .start i c) (hx : x ∈ life i tr) : x ∈ life i (v :: tr) := by
  by_cases hi : v.thread = i
  · cases v with
    | start k c =>
      cases hi
      exact absurd rfl (hv c)
    | did k c e r => cases hi; exact life_did ▸ List.mem_cons_of_mem _ hx
    | ended k c r => cases hi; exact life_ended ▸ List.mem_cons_of_mem _ hx
    | killed k c => cases hi; exact life_killed ▸ List.mem_cons_of_mem _ hx
  · rw [life_other hi]
    exact hx

end Life

/-- The call that a step is about. -/
def Act.thread : S.Act → Option Nat
  | .start i _ | .op i _ | .kill i => some i
  | .env _ => none

namespace World

/-- How many of the steps of a list do `q`, judged by the step and the world after it. -/
def count (q : S.Act → S.World → Bool) (w : S.World) : List S.Act → Nat
  | [] => 0
  | a :: as => match w.step a with
    | none => 0
    | some w' => (if q a w' then 1 else 0) + w'.count q as

/-- A bound that every step keeps. -/
theorem count_le {P : S.World → S.Act → Prop} {check : S.World → S.Act → Bool} {q : S.Act → S.World → Bool}
    {f : S.World → Nat} {w₀ : S.World} (hP : ∀ w a, check w a = true → P w a)
    (hstep : ∀ w a w', Reaches P w₀ w' → w.step a = some w' → (if q a w' then 1 else 0) + f w ≤ f w') :
    ∀ (as : List S.Act) {w w' : S.World}, Reaches P w₀ w → w.runIf check as = some w' → w.count q as + f w ≤ f w'
  | [], w, w', _, h => by
    cases h
    exact Nat.le_of_eq (Nat.zero_add _)
  | a :: as, w, w', hw, h => by
    rw [runIf] at h
    split at h
    · rename_i hcheck
      obtain ⟨w₁, h₁, h₂⟩ := Option.bind_eq_some_iff.mp h
      have hw₁ : Reaches P w₀ w₁ := hw.tail ⟨a, hP w a hcheck, h₁⟩
      have hrest := count_le hP hstep as hw₁ h₂
      have hone := hstep w a w₁ hw₁ h₁
      rw [count, h₁]
      dsimp only
      omega
    · cases h

/-- What holds wherever a run comes may be used at each of its steps. -/
theorem Reaches.strengthen {P : S.World → S.Act → Prop} {I : S.World → Prop} {w w' : S.World} (h : Reaches P w w')
    (hI : ∀ w₁, Reaches P w w₁ → I w₁) : Reaches (fun w a => P w a ∧ I w) w w' := by
  induction h with
  | refl => exact .refl
  | tail hw hn ih =>
    obtain ⟨a, hp, hs⟩ := hn
    exact ih.tail ⟨a, ⟨hp, hI _ hw⟩, hs⟩

/-- Where every operation suspends its call, no place is kept busy. -/
theorem Reaches.quiet {P : S.World → S.Act → Prop} (hsync : ∀ e, S.sync e = false) {w w' : S.World} (h : Reaches P w w')
    (h0 : w.busy = fun _ => none) : w'.busy = fun _ => none := by
  refine h.invariant (I := fun w => w.busy = fun _ => none) (fun w a w' hw _ hs => ?_) h0
  have park (w : S.World) (i : Nat) (c : S.Call) (p : S.Program) : (w.park i c p).busy = w.busy := by cases p <;> rfl
  cases a with
  | start i c =>
    rw [step] at hs
    split at hs
    · cases hs
      rw [park]
      exact hw
    · cases hs
  | op i choice =>
    rcases step_cases hs with ⟨_, _, ha, -⟩ | ⟨i, choice, c, e, k, r, s, ha, -, -, rfl⟩ | ⟨_, _, _, ha, -⟩ | ⟨_, _, ha, -⟩
    · cases ha
    · have hhead : headSync (k r) = false := by
        cases k r with
        | op e' k' => exact hsync e'
        | ret a => rfl
        | throw x => rfl
      rw [park, did, hhead, hw]
      exact Function.update_eq_self ..
    · cases ha
    · cases ha
  | kill i =>
    simp only [step] at hs
    split at hs
    · split at hs
      · cases hs
        simp only [hw, reduceCtorEq, if_false]
        exact Function.update_eq_self ..
      · cases hs
    · cases hs
  | env b =>
    obtain ⟨s, -, rfl⟩ := Option.map_eq_some_iff.mp hs
    exact hw

/-- A call that goes on after its step has carried out one operation. -/
theorem step_goes_on {w w' : S.World} {i : Nat} {choice : S.Choice} {t : S.Thread} (hs : w.step (.op i choice) = some w')
    (ht : w'.threads i = some t) : ∃ e r, w'.trace = .did i t.call e r :: w.trace := by
  rcases step_cases hs with ⟨_, _, h, -⟩ | ⟨_, _, c, e, k, r, s, h, -, -, rfl⟩ | ⟨_, _, _, h, -⟩ | ⟨_, _, h, -⟩
  · cases h
  · cases h
    cases hp : k r with
    | op e' k' =>
      rw [hp] at ht
      have ht : Function.update w.threads i (some ⟨c, .op e' k'⟩) i = some t := ht
      rw [Function.update_self] at ht
      cases ht
      exact ⟨e, r, rfl⟩
    | ret a =>
      rw [hp] at ht
      have ht : Function.update w.threads i none i = some t := ht
      rw [Function.update_self] at ht
      cases ht
    | throw x =>
      rw [hp] at ht
      have ht : Function.update w.threads i none i = some t := ht
      rw [Function.update_self] at ht
      cases ht
  · cases h
  · cases h

/-- What is about other calls leaves a call where it is. -/
theorem step_threads {w w' : S.World} {a : S.Act} {i : Nat} (hs : w.step a = some w') (hi : a.thread ≠ some i) :
    w'.threads i = w.threads i := by
  have park (w : S.World) {j : Nat} (hj : some j ≠ some i) (c : S.Call) (p : S.Program) :
      (w.park j c p).threads i = w.threads i := by
    have hji : i ≠ j := fun h => hj (congrArg some h.symm)
    cases p <;> exact Function.update_of_ne hji ..
  rcases step_cases hs with ⟨j, c, rfl, -, -, rfl⟩ | ⟨j, choice, c, e, k, r, s, rfl, -, -, rfl⟩ |
    ⟨j, t, busy, rfl, -, -, rfl⟩ | ⟨b, s, rfl, -, rfl⟩
  · exact park (w.log _) hi c _
  · exact park (w.did j c e r s (k r)) hi c _
  · exact Function.update_of_ne (fun h => hi (congrArg some h.symm)) ..
  · rfl

theorem run_threads {i : Nat} : ∀ {as : List S.Act} {w w' : S.World}, (∀ a ∈ as, a.thread ≠ some i) →
    w.run as = some w' → w'.threads i = w.threads i
  | [], _, _, _, h => by
    cases h
    rfl
  | a :: as, w, w', hi, h => by
    obtain ⟨w₁, h₁, h₂⟩ := Option.bind_eq_some_iff.mp h
    exact (run_threads (fun b hb => hi b (List.mem_cons_of_mem _ hb)) h₂).trans (step_threads h₁ (hi a List.mem_cons_self))

/-- A run that passes a check, in which only the first `n` threads take part. -/
theorem reaches_of_runIf_below {P : S.World → S.Act → Prop} {check : S.World → S.Act → Bool} {n : Nat} :
    ∀ {as : List S.Act} {w w' : S.World}, (∀ w, ∀ a ∈ as, (∀ i, n ≤ i → w.threads i = none) → check w a = true → P w a) →
      (∀ a ∈ as, ∀ i, a.thread = some i → i < n) → (∀ i, n ≤ i → w.threads i = none) → w.runIf check as = some w' →
        Reaches P w w' ∧ ∀ i, n ≤ i → w'.threads i = none
  | [], w, w', _, _, h0, h => by
    cases h
    exact ⟨Relation.ReflTransGen.refl, h0⟩
  | a :: as, w, w', hP, has, h0, h => by
    rw [runIf] at h
    split at h
    · rename_i hcheck
      obtain ⟨w₁, h₁, h₂⟩ := Option.bind_eq_some_iff.mp h
      have hnone : ∀ i, n ≤ i → w₁.threads i = none := fun i hi =>
        (step_threads h₁ fun ha => Nat.not_lt.mpr hi (has a List.mem_cons_self i ha)).trans (h0 i hi)
      obtain ⟨hreach, hend⟩ := reaches_of_runIf_below (fun w b hb => hP w b (List.mem_cons_of_mem _ hb))
        (fun b hb => has b (List.mem_cons_of_mem _ hb)) hnone h₂
      exact ⟨Relation.ReflTransGen.head ⟨a, hP w a List.mem_cons_self h0 hcheck, h₁⟩ hreach, hend⟩
    · cases h

end World
end Async.System
