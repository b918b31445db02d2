import NexusGate.Theorems.Core.Queue

/-! # What a gate conserves

Callers with a budget wait for their task even where a slot is free, so that the queue is bounded only in the runs where
none of them comes while it is full. -/

namespace NexusGate.Core
open Async

namespace InferenceGate
open System

section
variable {T : Type} {self : InferenceGate}

/-! ### Every run -/

/-- No caller with a budget comes while the queue is full and the semaphore is not locked; and no caller that has
    cancelled its task goes away while a slot is granted to that task. -/
def Orderly (w : (self.system T).World) (a : (self.system T).Act) : Prop :=
  (∀ timeout, w.opOf a = some (.enter (some timeout)) → w.state.slots.locked = true ∨ w.state.waiting < self.maxQueue) ∧
  ∀ i task, a = .op i .cancelled → w.opOf a = some (.settle task) →
    ∀ x ∈ w.state.slots.waiters, x.isTask task = true → x.state ≠ .granted

/-- The accounts of the queue, with the callers that wait for a slot. -/
structure Queue (gate : InferenceGate) (s : State T) (Γ : (gate.callers T).Board) (blocked : Finset Nat) : Prop where
  tally : Tally Γ (entry Op.inAcquire) blocked
  waiting : s.waiting = blocked.card
  present : s.present = blocked.card
  bound : blocked.card ≤ gate.maxQueue
  named : ∀ i c n, Γ i = some (c, some (.waitFor n)) → n < s.fresh
  calm : s.Calm {n | ∃ i c, Γ i = some (c, some (.settle n))}

theorem entry_of_update {β : Type} {Γ : Nat → Option β} {i j : Nat} {x : Option β} {t : β}
    (h : Function.update Γ i x j = some t) : x = some t ∨ Γ j = some t := by
  rw [Function.update_apply] at h
  split at h
  · exact Or.inl h
  · exact Or.inr h

/-- A caller goes from where it stands to another place, and the queue follows. -/
theorem Queue.move {gate : InferenceGate} {s s' : State T} {Γ : (gate.callers T).Board} {blocked : Finset Nat}
    (h : Queue gate s Γ blocked) {i : Nat} {x y : Option (Option ℚ × Option Op)} (hy : Γ i = y)
    (hwaiting : s'.waiting + (y.any (entry Op.inAcquire)).toNat = s.waiting + (x.any (entry Op.inAcquire)).toNat)
    (hpresent : s'.present + (y.any (entry Op.inAcquire)).toNat = s.present + (x.any (entry Op.inAcquire)).toNat)
    (hbound : s'.waiting ≤ gate.maxQueue) (hfresh : s.fresh ≤ s'.fresh)
    (hnamed : ∀ c n, x = some (c, some (.waitFor n)) → n < s'.fresh)
    (hcalm : s'.Calm {n | (∃ j c, Γ j = some (c, some (.settle n))) ∨ ∃ c, x = some (c, some (.settle n))}) :
    ∃ blocked', Queue gate s' (Function.update Γ i x) blocked' := by
  subst hy
  obtain ⟨blocked', htally, hcard⟩ := h.tally.update i x
  have hcard : blocked'.card + (Option.any (entry Op.inAcquire) (Γ i)).toNat =
    blocked.card + (x.any (entry Op.inAcquire)).toNat := hcard
  have hwaiting₀ := h.waiting
  have hpresent₀ := h.present
  have hnow : s'.waiting = blocked'.card := by omega
  refine ⟨blocked', htally, hnow, by omega, by omega, fun j c n hj => ?_, hcalm.fewer fun n hn => ?_⟩
  · exact (entry_of_update hj).elim (hnamed c n) fun hj => (h.named j c n hj).trans_le hfresh
  · obtain ⟨j, c, hj⟩ := hn
    exact (entry_of_update hj).elim (fun hx => Or.inr ⟨c, hx⟩) fun hj => Or.inl ⟨j, c, hj⟩

/-- The counter follows the callers. -/
theorem exec_waiting {e : Op} {choice : Choice} {s : State T} {o : Except Exn (e.Reply T) × State T}
    (hexec : self.exec e choice s = some o) :
    o.2.waiting + (e.inAcquire.toNat : Int) = s.waiting + ((standsNext e o.1).any Op.inAcquire).toNat := by
  cases e with
  | enter maxWait =>
    cases choice <;> cases hexec
    unfold enter
    split
    · cases maxWait <;> rfl
    · cases maxWait with
      | some timeout =>
        dsimp only [standsNext]
        split <;> exact add_zero _
      | none =>
        dsimp only
        split
        · exact add_zero _
        · rfl
  | wake fut =>
    cases choice with
    | ok =>
      obtain ⟨w, -, -, hstate, -⟩ := wake_spec hexec
      have hnext : ((standsNext (T := T) (.wake fut) o.1).any Op.inAcquire).toNat = 0 := by
        obtain ⟨r, s'⟩ := o
        cases r <;> rfl
      rw [hnext, hstate]
      show s.waiting - 1 + (1 : Nat) = s.waiting + (0 : Nat)
      omega
    | cancelled | expired => cases hexec
  | waitFor task =>
    rcases awaken_spec hexec with ⟨t, -, -, rfl⟩ | ⟨-, wake, hwake, rfl⟩
    · show s.waiting - 1 + (1 : Nat) = s.waiting + (0 : Nat)
      omega
    · cases wake with
      | acquired => exact absurd rfl hwake
      | expired | cancelled => rfl
  | settle task =>
    show o.2.waiting + (1 : Nat) = s.waiting + (0 : Nat)
    rcases settle_spec hexec with ⟨t, -, -, ho⟩ | ⟨-, s₁, hs₁, ho⟩
    · rw [ho]
      dsimp only
      omega
    · have hsame : s₁.waiting = s.waiting := by
        rcases State.leaveTask_spec hs₁ with ⟨t, -, -, -, rfl⟩ | ⟨w, -, -, -, rfl⟩ <;> rfl
      rw [ho]
      dsimp only
      omega
  | submit =>
    cases choice <;> cases hexec
    rfl
  | join ticket =>
    obtain ⟨j, -, h⟩ := Option.bind_eq_some_iff.mp hexec
    split at h <;> cases h <;> rfl
  | release =>
    cases choice <;> cases hexec
    rfl

/-- Only a caller that arrives makes the queue longer, and in an orderly run there is room for it. -/
theorem exec_bound {e : Op} {choice : Choice} {s : State T} {o : Except Exn (e.Reply T) × State T}
    (hbound : s.waiting ≤ self.maxQueue)
    (harrives : ∀ timeout, e = .enter (some timeout) → s.slots.locked = true ∨ s.waiting < self.maxQueue)
    (hexec : self.exec e choice s = some o) : o.2.waiting ≤ self.maxQueue := by
  have hmoves := exec_waiting hexec
  cases e with
  | enter maxWait =>
    cases choice <;> cases hexec
    unfold enter
    split
    · exact hbound
    · rename_i hroom
      have hfree : s.slots.locked = true → s.waiting < self.maxQueue := fun hlocked =>
        lt_of_not_ge fun hfull => hroom ⟨hlocked, hfull⟩
      cases maxWait with
      | some timeout => exact (harrives timeout rfl).elim hfree id
      | none =>
        dsimp only
        split
        · exact hfree ‹_›
        · exact hbound
  | waitFor task =>
    rcases awaken_spec hexec with ⟨t, -, -, rfl⟩ | ⟨-, wake, -, rfl⟩
    · exact (sub_le_self _ zero_le_one).trans hbound
    · exact hbound
  | _ =>
    have hnext : ((standsNext (T := T) _ o.1).any Op.inAcquire).toNat = 0 := by
      obtain ⟨r, s'⟩ := o
      cases r <;> rfl
    rw [hnext] at hmoves
    omega

theorem queue_rules : Rules (self.callers T) Orderly fun s _ Γ => ∃ blocked, Queue self s Γ blocked where
  start {w Γ i c} _ hJ hi _ _ := by
    obtain ⟨blocked, h⟩ := hJ
    refine h.move hi rfl rfl (h.waiting ▸ Int.ofNat_le.mpr h.bound) (le_refl _) (fun _ _ heq => ?_)
      (h.calm.fewer fun n hn => hn.resolve_right ?_)
    · cases heq
    · rintro ⟨_, heq⟩
      cases heq
  op {w Γ i choice c g e r s} _ hJ hi ht hmay hex hP := by
    obtain ⟨blocked, h⟩ := hJ
    obtain rfl : g = some e := hmay
    obtain ⟨k, ht⟩ := ht
    have hop : w.opOf (.op i choice) = some e := by simp only [World.opOf, ht]
    obtain ⟨hcalm, hpresent, hfresh, hnamed⟩ := exec_calm h.calm (fun n he => h.named i c n (he ▸ hi))
      (fun n he => ⟨i, c, he ▸ hi⟩) (fun n hchoice he => hP.2 i n (by rw [hchoice]) (he ▸ hop)) hex
    refine ⟨standsNext e r, rfl, h.move hi (exec_waiting hex) hpresent
      (exec_bound (h.waiting ▸ Int.ofNat_le.mpr h.bound) (fun timeout he => hP.1 timeout (he ▸ hop)) hex) hfresh ?_ ?_⟩
    · intro c' n heq
      exact hnamed n (Prod.mk.inj (Option.some.inj heq)).2
    · refine hcalm.fewer fun n hn => hn.imp_right ?_
      rintro ⟨c', heq⟩
      exact (Prod.mk.inj (Option.some.inj heq)).2
  ended {s tr Γ i c g r} hJ hi hlast := by
    obtain ⟨blocked, h⟩ := hJ
    obtain rfl : g = none := hlast
    refine h.move hi rfl rfl (h.waiting ▸ Int.ofNat_le.mpr h.bound) (le_refl _) (fun _ _ heq => by cases heq)
      (h.calm.fewer fun n hn => hn.resolve_right ?_)
    rintro ⟨_, heq⟩
    cases heq
  kill _ _ _ hm _ := by cases hm
  env _ hJ hb _ := by
    obtain ⟨blocked, h⟩ := hJ
    obtain ⟨hcalm, hpresent, hfresh, hwaiting⟩ := env_calm h.calm hb
    exact ⟨blocked, h.tally, hwaiting.trans h.waiting, hpresent.trans h.present, h.bound,
      fun i c n hi => hfresh ▸ h.named i c n hi, hcalm⟩

theorem queue_fresh : Queue self (self.fresh T).state (fun _ => none : (self.callers T).Board) ∅ where
  tally := Tally.empty
  waiting := rfl
  present := rfl
  bound := Nat.zero_le _
  named _ _ _ h := by cases h
  calm := by
    refine ⟨fun n hn => ?_, nofun, nofun⟩
    obtain ⟨i, c, h⟩ := hn
    cases h

/-- The operation at which a caller stands. -/
def standsAt (w : (self.system T).World) (i : Nat) : Option Op :=
  match w.threads i with
  | some ⟨_, .op e _⟩ => some e
  | _ => none

/-- The callers that stand at such an operation. -/
def Standing (w : (self.system T).World) (q : Op → Bool) (A : Finset Nat) : Prop :=
  ∀ i, i ∈ A ↔ (standsAt w i).any q = true

theorem standing_of_tally {w : (self.system T).World} {Γ : (self.callers T).Board} {q : Op → Bool} {A : Finset Nat}
    (hΓ : (self.callers T).Shows w Γ) (h : Tally Γ (entry q) A) : Standing w q A := by
  refine fun i => (h i).trans ?_
  unfold standsAt
  cases ht : w.threads i with
  | none =>
    rw [hΓ.none_iff.mp ht]
    exact Iff.rfl
  | some t =>
    obtain ⟨c, p⟩ := t
    obtain ⟨g, hg, -⟩ := hΓ.of_thread ht
    obtain ⟨e, k, ht', hf⟩ := hΓ.waits hg
    cases ht.symm.trans ht'
    have hmay : g = some e := (Follows.op_iff.mp hf).1
    rw [hg, hmay]
    exact Iff.rfl

/-- What a gate keeps: no slot is lost, each of them is free, given to a caller that has not gone on yet, or held past
    acquisition; the counter tells how many callers wait; and the queue is bounded. -/
structure Conserves (gate : InferenceGate) (w : (gate.system T).World) : Prop where
  slots : ∃ past, Standing w Op.pastAcquisition past ∧
    w.state.slots.value + w.state.handedOver + past.card = gate.maxConcurrency
  waiting : ∃ blocked, Standing w Op.inAcquire blocked ∧ w.state.waiting = blocked.card ∧
    w.state.handedOver ≤ blocked.card ∧ blocked.card ≤ gate.maxQueue
  refused : ∀ maxWait, (∃ message, (gate.enter maxWait w.state).1 = .error (.overloaded message)) ↔
    w.state.waiting = gate.maxQueue ∧ (w.state.slots.value = 0 ∨ ∃ x ∈ w.state.slots.waiters, x.state ≠ .cancelled)
  idle : (∀ i, w.threads i = none) → w.state.slots.value = gate.maxConcurrency ∧ w.state.waiting = 0

theorem enter_refused {s : State T} {maxWait : Option ℚ} (hbound : s.waiting ≤ self.maxQueue) :
    (∃ message, (self.enter maxWait s).1 = .error (.overloaded message)) ↔
      s.waiting = self.maxQueue ∧ (s.slots.value = 0 ∨ ∃ x ∈ s.slots.waiters, x.state ≠ .cancelled) := by
  have hlocked : s.slots.locked = true ↔ s.slots.value = 0 ∨ ∃ x ∈ s.slots.waiters, x.state ≠ .cancelled := by
    simp [Semaphore.locked]
  rw [← hlocked]
  unfold enter
  split
  · rename_i h
    exact iff_of_true ⟨_, rfl⟩ ⟨le_antisymm hbound h.2, h.1⟩
  · rename_i h
    refine iff_of_false ?_ fun hfull => h ⟨hfull.2, hfull.1.ge⟩
    rintro ⟨_, hmessage⟩
    cases maxWait with
    | some timeout => cases hmessage
    | none =>
      dsimp only at hmessage
      split at hmessage <;> cases hmessage

/-- Nobody has gone away from a slot that was given to it. -/
theorem State.Calm.handedOver_le {s : State T} {N : Set Nat} (h : s.Calm N) : s.handedOver ≤ s.present := by
  refine Nat.add_le_add (List.countP_mono_left fun x hx hgranted => ?_) (List.countP_mono_left fun t ht hacquired => ?_)
  · rw [Bool.not_eq_true']
    refine Bool.eq_false_iff.mpr fun hleft => ?_
    rw [((h.waiters x hx).left hleft).2] at hgranted
    cases hgranted
  · rw [Bool.not_eq_true']
    refine Bool.eq_false_iff.mpr fun hleft => ?_
    rw [(h.tasks t ht).left hleft] at hacquired
    cases hacquired

/-- In every orderly run, whatever else the callers, the threads and the budgets do. -/
theorem conserves {w : (self.system T).World} (h : World.Reaches Orderly (self.fresh T) w) : self.Conserves w := by
  obtain ⟨Γ, hΓ, past, hacc⟩ := accounts_rules.reaches callers_sound h ⟨_, shows_fresh, ∅, accounts_fresh⟩
  obtain ⟨Γ', hΓ', blocked, hqueue⟩ := queue_rules.reaches callers_sound h ⟨_, shows_fresh, ∅, queue_fresh⟩
  have hwaiting := hqueue.waiting
  have hbound := hqueue.bound
  have hslots : w.state.slots.value + w.state.handedOver + past.card = self.maxConcurrency := hacc.slots
  have hhanded : w.state.handedOver ≤ blocked.card := hqueue.present ▸ hqueue.calm.handedOver_le
  refine ⟨⟨past, standing_of_tally hΓ hacc.tally, hslots⟩,
    ⟨blocked, standing_of_tally hΓ' hqueue.tally, hwaiting, hhanded, hbound⟩, fun _ => enter_refused (by omega), fun hnone => ?_⟩
  have hempty : ∀ {q : Op → Bool} {A : Finset Nat}, Standing w q A → A.card = 0 := fun hA => by
    refine Finset.card_eq_zero.mpr (Finset.eq_empty_of_forall_notMem fun i hi => ?_)
    have hi := (hA i).mp hi
    rw [standsAt, hnone i] at hi
    cases hi
  have hpast := hempty (standing_of_tally hΓ hacc.tally)
  have hblocked := hempty (standing_of_tally hΓ' hqueue.tally)
  constructor <;> omega

end

/-! ### Callers with a budget that all come at once -/

namespace AtOnce

def gate : InferenceGate where
  name := "inference"
  maxConcurrency := 1
  maxQueue := 0
  positive := Nat.one_pos
  inMilliseconds _ := ""

/-- Three callers come before any of their tasks has its first turn. -/
def acts : List (gate.system Unit).Act :=
  [.start 0 (some 5), .op 0 .ok, .start 1 (some 5), .op 1 .ok, .start 2 (some 5), .op 2 .ok]

theorem all_wait : ((gate.fresh Unit).run acts).map (fun w => w.state.waiting) = some 3 := by decide

/-- None of them is refused: three wait in a queue that has no place. -/
theorem not_conserves : ∃ w, World.Reaches World.anyStep (gate.fresh Unit) w ∧ ¬gate.Conserves w := by
  obtain ⟨w, hw, hthree⟩ := Option.map_eq_some_iff.mp all_wait
  refine ⟨w, World.reaches_of_run (fun _ _ _ => trivial) hw, fun h => ?_⟩
  obtain ⟨blocked, -, hwaiting, -, hbound⟩ := h.waiting
  have hnone : blocked.card ≤ 0 := hbound
  omega

end AtOnce

/-! ### A slot on its way to the next in the queue -/

namespace HandOver

def gate : InferenceGate where
  name := "inference"
  maxConcurrency := 2
  maxQueue := 1
  positive := Nat.le_succ 1
  inMilliseconds _ := ""

/-- Two callers have come to their end while a third waits with a budget, whose task has not gone on yet. -/
def acts : List (gate.system Unit).Act :=
  [.start 0 none, .op 0 .ok, .op 0 .ok, .start 1 none, .op 1 .ok, .op 1 .ok, .start 2 (some 5), .op 2 .ok,
    .env (.turn 2), .env (.begin 0), .env (.begin 1), .env (.finish 0 (.ok ())), .env (.finish 1 (.ok ())),
    .op 0 .ok, .op 0 .ok, .op 1 .ok, .op 1 .ok]

/-- The step is orderly, and no caller is cancelled. -/
def orderly (w : (gate.system Unit).World) (a : (gate.system Unit).Act) : Bool :=
  (match w.opOf a with
    | some (.enter (some _)) => w.state.slots.locked || decide (w.state.waiting < gate.maxQueue)
    | _ => true) &&
  match a with
    | .op _ .cancelled => false
    | _ => true

theorem orderly_sound (w : (gate.system Unit).World) (a : (gate.system Unit).Act) (h : orderly w a = true) :
    Orderly w a := by
  obtain ⟨hroom, hstays⟩ := (Bool.and_eq_true _ _).mp h
  refine ⟨fun timeout hop => ?_, fun i task ha => ?_⟩
  · rw [hop] at hroom
    simpa using hroom
  · subst ha
    cases hstays

/-- A slot is free, the other is handed over, and whoever comes next is refused. -/
def between (w : (gate.system Unit).World) : Bool :=
  w.state.slots.value == 1 && w.state.handedOver == 1 && ((gate.enter none w.state).1 matches .error (.overloaded _))

theorem comes_between : ((gate.fresh Unit).runIf orderly acts).any between = true := by decide

theorem between_conserves :
    ∃ w : (gate.system Unit).World, w.state.slots.value = 1 ∧ w.state.handedOver = 1 ∧ gate.Conserves w := by
  obtain ⟨w, hw, hbetween⟩ := (Option.any_eq_true _ _).mp comes_between
  simp only [between, Bool.and_eq_true, beq_iff_eq] at hbetween
  exact ⟨w, hbetween.1.1, hbetween.1.2, conserves (World.reaches_of_runIf orderly_sound hw)⟩

end HandOver
end InferenceGate
end NexusGate.Core
