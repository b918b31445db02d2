import NexusGate.Theorems.Core.Slots

/-! # How many functions of a gate execute at once

A function executes in a thread of its own, and a slot is held by the caller that waits for it. As long as every
caller stays until its function has come to its end, there is a slot for each of them. -/

namespace NexusGate.Core
open Async

section
variable {T : Type} {ticket : Nat} {f : Job T → Option (Job T)}

theorem setJob_length : ∀ {js : List (Job T)} {j : Job T}, (js.find? fun j => j.ticket == ticket) = some j →
    (setJob ticket f js).length + 1 = js.length + (f j).toList.length
  | [], _, h => by cases h
  | j' :: js, j, h => by
    unfold setJob
    by_cases hj : j'.ticket = ticket
    · rw [List.find?_cons_of_pos (by simpa using hj)] at h
      cases h
      rw [if_pos hj]
      simp only [List.length_append, List.length_cons]
      omega
    · rw [List.find?_cons_of_neg (by simpa using hj)] at h
      rw [if_neg hj, List.length_cons, List.length_cons, setJob_length h]
      omega

end

theorem setJob_forall {T : Type} {p : Job T → Prop} {ticket : Nat} {f : Job T → Option (Job T)}
    (hf : ∀ j, p j → ∀ j', f j = some j' → p j') :
    ∀ {js : List (Job T)}, (∀ j ∈ js, p j) → ∀ j ∈ setJob ticket f js, p j
  | [], h => h
  | j :: js, h => by
    have hj := h j List.mem_cons_self
    have hjs := fun x hx => h x (List.mem_cons_of_mem _ hx)
    unfold setJob
    split
    · intro x hx
      rcases List.mem_append.mp hx with hx | hx
      · exact hf j hj x (Option.mem_toList.mp hx)
      · exact hjs x hx
    · exact List.forall_mem_cons.mpr ⟨hj, setJob_forall hf hjs⟩

namespace InferenceGate
open System

section
variable {T : Type} {self : InferenceGate}

/-- The number of functions that execute in a thread. -/
def State.executing (s : State T) : Nat := s.jobs.countP fun j => j.state.isExecuting

/-- No caller is cancelled while its function executes. -/
def Attended (w : (self.system T).World) (a : (self.system T).Act) : Prop :=
  ∀ i ticket, a = .op i .cancelled → w.opOf a = some (.join ticket) →
    ∀ j, w.state.job? ticket = some j → j.state.isExecuting = false

/-- Each function has a caller that waits for it. -/
structure Manned (gate : InferenceGate) (s : State T) (Γ : (gate.callers T).Board) (present : Finset Nat) : Prop where
  tally : Tally Γ (entry Op.inThread) present
  jobs : s.jobs.length = present.card
  awaited : ∀ j ∈ s.jobs, j.awaited = true

/-- A caller goes from where it stands to another place, and the functions follow. -/
theorem Manned.move {s s' : State T} {Γ : (self.callers T).Board} {present : Finset Nat} (h : Manned self s Γ present)
    {i : Nat} {x y : Option (Option ℚ × Option Op)} (hy : Γ i = y)
    (hjobs : s'.jobs.length + (y.any (entry Op.inThread)).toNat = s.jobs.length + (x.any (entry Op.inThread)).toNat)
    (hawaited : ∀ j ∈ s'.jobs, j.awaited = true) : ∃ present', Manned self s' (Function.update Γ i x) present' := by
  subst hy
  obtain ⟨present', htally, hcard⟩ := h.tally.update i x
  have hcard : present'.card + (Option.any (entry Op.inThread) (Γ i)).toNat =
    present.card + (x.any (entry Op.inThread)).toNat := hcard
  have hjobs₀ := h.jobs
  exact ⟨present', htally, by omega, hawaited⟩

/-- A job is taken off once its caller does not wait for it any more. -/
theorem join_jobs {ticket : Nat} {choice : Choice} {s : State T} {o : Except Exn T × State T}
    (h : join ticket choice s = some o)
    (hattended : choice = .cancelled → ∀ j, s.job? ticket = some j → j.state.isExecuting = false) :
    o.2.jobs = setJob ticket (fun _ => none) s.jobs ∧ ∃ j, s.job? ticket = some j := by
  obtain ⟨j, hj, h⟩ := Option.bind_eq_some_iff.mp h
  refine ⟨?_, j, hj⟩
  split at h
  · cases h
    rfl
  · cases h
  · have hidle := hattended rfl j hj
    rename_i hexecuting _
    rw [hexecuting] at hidle
    cases hidle
  · cases h
    rfl
  · cases h

theorem exec_manned {s : State T} {Γ : (self.callers T).Board} {present : Finset Nat} (h : Manned self s Γ present)
    {i : Nat} {c : Option ℚ} {e : Op} {choice : Choice} {o : Except Exn (e.Reply T) × State T}
    (hi : Γ i = some (c, some e)) (hexec : self.exec e choice s = some o)
    (hattended : ∀ ticket, choice = .cancelled → e = .join ticket →
      ∀ j, s.job? ticket = some j → j.state.isExecuting = false) :
    ∃ present', Manned self o.2 (Function.update Γ i (some (c, standsNext e o.1))) present' := by
  -- Operations on the slots and the queue leave the functions alone.
  have leaves (hjobs : o.2.jobs = s.jobs) (hnext : ((standsNext e o.1).any Op.inThread).toNat = 0)
      (he : e.inThread = false := by rfl) :
      ∃ present', Manned self o.2 (Function.update Γ i (some (c, standsNext e o.1))) present' := by
    refine h.move hi ?_ (hjobs ▸ h.awaited)
    rw [hjobs]
    show _ + e.inThread.toNat = _ + ((standsNext e o.1).any Op.inThread).toNat
    rw [hnext, he]
    rfl
  cases e with
  | enter maxWait =>
    cases choice <;> cases hexec
    have hjobs : (self.enter maxWait s).2.jobs = s.jobs ∧
        ((standsNext (T := T) (.enter maxWait) (self.enter maxWait s).1).any Op.inThread).toNat = 0 := by
      unfold enter
      split
      · cases maxWait <;> exact ⟨rfl, rfl⟩
      · cases maxWait with
        | some timeout =>
          dsimp only [standsNext]
          split <;> exact ⟨rfl, rfl⟩
        | none =>
          dsimp only
          split <;> exact ⟨rfl, rfl⟩
    exact leaves hjobs.1 hjobs.2
  | wake fut =>
    cases choice with
    | ok =>
      obtain ⟨w, -, -, hstate, -⟩ := wake_spec hexec
      obtain ⟨r, s'⟩ := o
      exact leaves (by rw [hstate]) (by cases r <;> rfl)
    | cancelled | expired => cases hexec
  | waitFor task =>
    rcases awaken_spec hexec with ⟨t, -, -, rfl⟩ | ⟨-, wake, -, rfl⟩
    · exact leaves rfl rfl
    · exact leaves rfl (by cases wake <;> rfl)
  | settle task =>
    rcases settle_spec hexec with ⟨t, -, -, ho⟩ | ⟨-, s₁, hs₁, ho⟩
    · exact leaves (by rw [ho]) rfl
    · have hsame : s₁.jobs = s.jobs := by
        rcases State.leaveTask_spec hs₁ with ⟨t, -, -, -, rfl⟩ | ⟨w, -, -, -, rfl⟩ <;> rfl
      exact leaves (by rw [ho, hsame]) rfl
  | submit =>
    cases choice <;> cases hexec
    refine h.move hi List.length_append fun j hj => ?_
    rcases List.mem_append.mp hj with hj | hj
    · exact h.awaited j hj
    · rw [List.mem_singleton.mp hj]
  | join ticket =>
    obtain ⟨hjobs, j, hj⟩ := join_jobs hexec fun hcancelled => hattended ticket hcancelled rfl
    refine h.move hi ?_ ?_
    · have hlength : (setJob ticket (fun _ => none) s.jobs).length + 1 = s.jobs.length := setJob_length hj
      rw [hjobs]
      exact hlength
    · rw [hjobs]
      exact setJob_forall (fun _ _ _ hnone => by cases hnone) h.awaited
  | release =>
    cases choice <;> cases hexec
    exact h.move hi rfl h.awaited

theorem env_manned {s s' : State T} {Γ : (self.callers T).Board} {present : Finset Nat} (h : Manned self s Γ present)
    {a : Env T} (ha : env a s = some s') : Manned self s' Γ present := by
  cases a with
  | interrupt fut =>
    obtain ⟨w, -, rfl⟩ := Option.map_eq_some_iff.mp ha
    exact ⟨h.tally, h.jobs, h.awaited⟩
  | turn task =>
    have hsame : s'.jobs = s.jobs := by
      rcases turn_spec ha with ⟨t, -, -, rfl⟩ | ⟨t, -, -, -, -, rfl⟩ | ⟨t, -, -, -, -, rfl⟩ | ⟨w, -, -, -, rfl⟩ <;> rfl
    exact ⟨h.tally, hsame ▸ h.jobs, hsame ▸ h.awaited⟩
  | begin ticket =>
    obtain ⟨j, hj, ha⟩ := Option.bind_eq_some_iff.mp ha
    split at ha <;> cases ha
    refine ⟨h.tally, ?_, setJob_forall (fun j hj j' hj' => ?_) h.awaited⟩
    · exact Nat.succ.inj ((setJob_length hj).trans (congrArg Nat.succ h.jobs))
    · cases hj'
      exact hj
  | finish ticket outcome =>
    obtain ⟨j, hj, ha⟩ := Option.bind_eq_some_iff.mp ha
    split at ha <;> cases ha
    have hawaited := h.awaited j (List.mem_of_find?_eq_some hj)
    refine ⟨h.tally, ?_, setJob_forall (fun j hj j' hj' => ?_) h.awaited⟩
    · have hlength := setJob_length (f := fun j : Job T =>
        if j.awaited then some { j with state := .finished outcome } else none) hj
      rw [hawaited] at hlength
      exact Nat.succ.inj (hlength.trans (congrArg Nat.succ h.jobs))
    · rw [hj] at hj'
      cases hj'
      rfl

theorem manned_rules : Rules (self.callers T) Attended fun s _ Γ =>
    (∃ past, Accounts self s Γ past) ∧ ∃ present, Manned self s Γ present where
  start {w Γ i c} hΓ hJ hi hadmits hP := by
    obtain ⟨hacc, present, h⟩ := hJ
    exact ⟨accounts_rules.start hΓ hacc hi hadmits hP, h.move hi rfl h.awaited⟩
  op {w Γ i choice c g e r s} hΓ hJ hi ht hmay hex hP := by
    obtain ⟨hacc, present, h⟩ := hJ
    obtain ⟨g', hnext, hacc⟩ := accounts_rules.op hΓ hacc hi ht hmay hex hP
    obtain rfl : g = some e := hmay
    obtain rfl : g' = standsNext e r := hnext
    refine ⟨_, rfl, hacc, exec_manned h hi hex fun ticket hchoice he => ?_⟩
    obtain ⟨k, ht⟩ := ht
    subst hchoice he
    exact hP i ticket rfl (by simp only [World.opOf, ht])
  ended {s tr Γ i c g r} hJ hi hlast := by
    obtain ⟨hacc, present, h⟩ := hJ
    refine ⟨@Rules.ended _ _ Attended _ accounts_rules s tr Γ i c g r hacc hi hlast, ?_⟩
    obtain rfl : g = none := hlast
    exact h.move hi rfl h.awaited
  kill _ _ _ hm _ := by cases hm
  env hΓ hJ hb hP := by
    obtain ⟨hacc, present, h⟩ := hJ
    exact ⟨accounts_rules.env hΓ hacc hb hP, present, env_manned h hb⟩

/-- In every run in which callers are cancelled only before and after their functions execute. -/
theorem bounded {w : (self.system T).World} (h : World.Reaches Attended (self.fresh T) w) :
    w.state.executing ≤ self.maxConcurrency := by
  obtain ⟨Γ, -, ⟨past, hacc⟩, present, hmanned⟩ := manned_rules.reaches callers_sound h
    ⟨_, shows_fresh, ⟨∅, accounts_fresh⟩, ∅, Tally.empty, rfl, nofun⟩
  have hpresent : present.card ≤ past.card := hmanned.tally.mono (fun x hx => by
    obtain ⟨e, he, hthread⟩ := (Option.any_eq_true _ _).mp hx
    refine (Option.any_eq_true _ _).mpr ⟨e, he, ?_⟩
    cases e <;> first | rfl | cases hthread) hacc.tally
  calc w.state.executing ≤ w.state.jobs.length := List.countP_le_length
    _ = present.card := hmanned.jobs
    _ ≤ past.card := hpresent
    _ ≤ self.maxConcurrency := by
      have hslots := hacc.slots
      omega

end

/-! ### A caller that goes away -/

namespace Abandoned

def gate : InferenceGate where
  name := "inference"
  maxConcurrency := 1
  maxQueue := 0
  positive := Nat.one_pos
  inMilliseconds _ := ""

/-- A caller whose function executes. -/
def first : List (gate.system Unit).Act := [.start 0 none, .op 0 .ok, .op 0 .ok, .env (.begin 0)]

/-- The client of the first caller goes away, and another one comes. -/
def second : List (gate.system Unit).Act :=
  [.op 0 .cancelled, .op 0 .ok, .start 1 none, .op 1 .ok, .op 1 .ok, .env (.begin 1)]

theorem first_bounded : ∃ w : (gate.system Unit).World, w.state.executing = 1 ∧ w.state.executing ≤ gate.maxConcurrency := by
  have hrun : ((gate.fresh Unit).run first).any (fun w => w.state.executing == 1) = true := by decide
  obtain ⟨w, hw, hone⟩ := (Option.any_eq_true _ _).mp hrun
  refine ⟨w, beq_iff_eq.mp hone, bounded (World.reaches_of_run (fun a ha w i ticket hcancelled => ?_) hw)⟩
  subst hcancelled
  simp only [first, List.mem_cons, List.not_mem_nil, or_false, reduceCtorEq, false_or] at ha
  rcases ha with ha | ha <;> cases ha

theorem not_bounded : ∃ w, World.Reaches World.anyStep (gate.fresh Unit) w ∧ gate.maxConcurrency < w.state.executing := by
  have hrun : ((gate.fresh Unit).run (first ++ second)).any (fun w => w.state.executing == 2) = true := by decide
  obtain ⟨w, hw, htwo⟩ := (Option.any_eq_true _ _).mp hrun
  refine ⟨w, World.reaches_of_run (fun _ _ _ => trivial) hw, ?_⟩
  rw [beq_iff_eq.mp htwo]
  decide

end Abandoned
end InferenceGate
end NexusGate.Core
