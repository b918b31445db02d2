import NexusGate.Async.Lives
import NexusGate.Theorems.Gateway.GaugeDuties
import NexusGate.Theorems.Gateway.Walk

/-! # What the gauge of a circuit shows

A request sets the gauge to what it has just told the breaker. The gauge of a deployment tells the truth as long as
whatever opens or closes a circuit goes on to set the gauge, and a request that has been overtaken, or is cancelled,
leaves the gauge to one that comes after it. -/

namespace NexusGate.Gateway.Router
open Async Redis System

/-- The request goes on to set the gauge if a method of a breaker opens or closes the circuit. -/
def Duty.sets (g : Duty) (name : String) (m : CircuitBreaker.Method) : Bool :=
  match g, m with
  | .refused, _ => false
  | .failing n, .adopt .opened _ => n = name
  | _, .recordSuccess | _, .recordFailure => true
  | _, _ => false

/-- The gauge is up exactly if the breaker is not closed. -/
def Truthful (replica : Nat) (name : String) (s : Site) : Prop :=
  s.gauges replica name = some true ↔ (s.breakers replica name).state ≠ .closed

/-- A method opens or closes the circuit. -/
def Flips (s : Site) (replica : Nat) (name : String) (m : CircuitBreaker.Method) : Prop :=
  ((s.ask replica name m).2.breakers replica name).state = .closed ↔ (s.breakers replica name).state ≠ .closed

instance {s : Site} {replica : Nat} {name : String} {m : CircuitBreaker.Method} : Decidable (Flips s replica name m) :=
  inferInstanceAs (Decidable (_ ↔ _))

end NexusGate.Gateway.Router

namespace NexusGate.Gateway.LLMRouter
open Async Redis Router System
variable {self : LLMRouter}

/-- What a running request has in hand, read off what it has done. -/
def standing (self : LLMRouter) (i : Nat) (tr : List (requests self).Event) : Duty :=
  (life i tr).foldr (fun v g => match v with
    | .did _ _ e r => g.after e r
    | _ => g) .free

/-- The circuit of the deployment is not closed. -/
def up (self : LLMRouter) (s : Site) (name : String) : Bool := (s.breakers self.replica name).state ≠ .closed

/-- Another request than `i` is under way that has told the breaker what it is now, and owes the gauge. -/
def OwedBeside (self : LLMRouter) (w : (requests self).World) (i : Nat) (name : String) : Prop :=
  ∃ j, j ≠ i ∧ (w.threads j).isSome = true ∧ self.standing j w.trace = .owes name (self.up w.state name)

/-- What opens or closes a circuit goes on to set the gauge. When a request comes to the gauge, the breaker is still
    what the request has told it, or another request owes the gauge; and it is not cancelled before, unless the
    gauge tells the truth or another request owes it. -/
def Permits (self : LLMRouter) (w : (requests self).World) (i : Nat) (choice : Choice) : Op → Prop
  | .breaker replica name m => replica = self.replica → Flips w.state replica name m →
      (self.standing i w.trace).sets name m = true
  | .gauge _ _ _ => ∀ name told, (self.standing i w.trace).gauge = some (name, told) →
      told = self.up w.state name ∨ self.OwedBeside w i name
  | .redis _ => ∀ applied name told, choice = .cancelled applied → self.standing i w.trace = .owes name told →
      Truthful self.replica name w.state ∨ self.OwedBeside w i name
  | _ => True

/-- Every operation of a request is permitted. -/
def Heralds (self : LLMRouter) (w : (requests self).World) (a : (requests self).Act) : Prop :=
  ∀ i choice, a = .op i choice → ∀ e, w.opOf a = some e → self.Permits w i choice e

/-- No circuit has been opened yet, and no request is under way. -/
structure Untouched (router : LLMRouter) (w : (requests router).World) : Prop where
  closed : ∀ name, (w.state.breakers router.replica name).state = .closed
  unset : ∀ name, w.state.gauges router.replica name ≠ some true
  threads : ∀ i, w.threads i = none

/-- Every gauge tells the truth, but for those that a request is about to set. -/
def GaugesTrue (self : LLMRouter) (w : (requests self).World) : Prop :=
  ∀ name, (∀ i told, (w.threads i).isSome = true → self.standing i w.trace ≠ .owes name told) →
    Truthful self.replica name w.state

/-! ### What a step does to the gauges -/

/-- What is neither asked of a breaker nor of a gauge leaves both as they are. -/
theorem exec_aside {e : Op} {choice : Choice} {s : Site} {o : Except Exn e.Reply × Site} (ho : exec e choice s = some o)
    (hbreaker : ∀ replica name m, e ≠ .breaker replica name m) (hgauge : ∀ replica name up, e ≠ .gauge replica name up) :
    o.2.breakers = s.breakers ∧ o.2.gauges = s.gauges := by
  have hredis (c : Cmd Int) : (s.redis c).2.breakers = s.breakers ∧ (s.redis c).2.gauges = s.gauges := by
    refine ⟨?_, rfl⟩
    show (s.toState.redis c).2.breakers = _
    unfold State.redis
    split <;> rfl
  cases e with
  | breaker replica name m => exact absurd rfl (hbreaker replica name m)
  | gauge replica name up => exact absurd rfl (hgauge replica name up)
  | redis c =>
    cases choice with
    | ok =>
      cases ho
      exact hredis c
    | lost applied | cancelled applied =>
      cases ho
      cases applied
      · exact ⟨rfl, rfl⟩
      · exact hredis c
    | _ => cases ho
  | create replica name =>
    cases choice <;> cases ho
    refine ⟨?_, rfl⟩
    show (s.toState.create replica name).breakers = _
    unfold State.create
    split <;> rfl
  | _ => cases choice <;> cases ho <;> exact ⟨rfl, rfl⟩

/-- A failure that opens a circuit leaves it open. -/
theorem recordFailure_opened {b : CircuitBreaker} {now stamp : ℚ} (h : (b.recordFailure now stamp).1 = true) :
    (b.recordFailure now stamp).2.state = .opened := by
  revert h
  unfold CircuitBreaker.recordFailure
  dsimp only
  split
  · exact fun _ => rfl
  · exact fun h => by cases h

theorem truthful_congr {replica : Nat} {name : String} {s s' : Site} (hgauges : s'.gauges = s.gauges)
    (hstate : (s'.breakers replica name).state = .closed ↔ (s.breakers replica name).state = .closed) :
    Truthful replica name s' ↔ Truthful replica name s := by
  unfold Truthful
  rw [hgauges]
  exact iff_congr Iff.rfl (not_congr hstate)

theorem env_same {a : Env} {s s' : Site} (h : Router.env a s = some s') : s'.breakers = s.breakers := by
  cases a with
  | time | store =>
    cases h
    rfl
  | clock replica seconds =>
    unfold Router.env at h
    dsimp only at h
    split at h <;> cases h
    rfl

theorem env_truthful {a : Env} {replica : Nat} {name : String} {s s' : Site} (h : Router.env a s = some s') :
    Truthful replica name s' ↔ Truthful replica name s := by
  cases a with
  | time | store =>
    cases h
    exact Iff.rfl
  | clock replica seconds =>
    unfold Router.env at h
    dsimp only at h
    split at h <;> cases h
    exact Iff.rfl

/-- A failure that opens no circuit leaves it open or closed as it is. -/
theorem recordFailure_state {b : CircuitBreaker} {now stamp : ℚ} (h : (b.recordFailure now stamp).1 = false) :
    (b.recordFailure now stamp).2.state = .closed ↔ b.state = .closed := by
  revert h
  unfold CircuitBreaker.recordFailure CircuitBreaker.refresh CircuitBreaker.due
  dsimp only
  split
  · rename_i hdue
    split
    · exact fun h => by cases h
    · rename_i hopen
      exact absurd (.inl rfl) hopen
  · split
    · exact fun h => by cases h
    · exact fun _ => Iff.rfl

/-- What a method of a breaker leaves of it. -/
theorem ask_self {s : Site} {replica : Nat} {name : String} {m : CircuitBreaker.Method} :
    (s.ask replica name m).2.breakers replica name =
      ((s.breakers replica name).call (s.clock replica) (s.clock replica) m).2 := by
  show Function.update s.breakers replica (Function.update (s.breakers replica) name _) replica name = _
  rw [Function.update_self, Function.update_self]
  rfl

theorem ask_others {s : Site} {replica r : Nat} {name n : String} {m : CircuitBreaker.Method}
    (h : ¬(replica = r ∧ name = n)) : (s.ask replica name m).2.breakers r n = s.breakers r n := by
  show Function.update s.breakers replica (Function.update (s.breakers replica) name _) r n = _
  by_cases hr : replica = r
  · subst hr
    rw [Function.update_self, Function.update_of_ne fun hn => h ⟨rfl, hn.symm⟩]
  · rw [Function.update_of_ne fun hr' => hr hr'.symm]

/-- A request that opens or closes a circuit, and goes on to the gauge, has told the breaker what it is now. -/
theorem after_sets {g : Duty} {s : Site} {name : String} {m : CircuitBreaker.Method}
    (hsets : g.sets name m = true) (hflips : Flips s self.replica name m) :
    g.after (.breaker self.replica name m) (.ok (s.ask self.replica name m).1) =
      .owes name (self.up (s.ask self.replica name m).2 name) := by
  unfold up
  rw [ask_self]
  cases m with
  | recordSuccess => cases g <;> first | rfl | cases hsets
  | recordFailure =>
    have hopened : (s.ask self.replica name .recordFailure).1 = true := by
      by_contra hfalse
      have hsame := recordFailure_state (Bool.eq_false_iff.mpr hfalse)
      unfold Flips at hflips
      rw [ask_self] at hflips
      have hflips := hsame.symm.trans hflips
      by_cases hclosed : (s.breakers self.replica name).state = .closed
      · exact hflips.mp hclosed hclosed
      · exact hclosed (hflips.mpr hclosed)
    have hstate := recordFailure_opened hopened
    rw [hopened]
    show _ = Duty.owes name (decide ((CircuitBreaker.recordFailure _ _ _).2.state ≠ .closed))
    rw [hstate]
    cases g <;> first | rfl | cases hsets
  | adopt state n =>
    cases state <;> cases g <;> first | cases hsets | skip
    rename_i other
    obtain rfl : other = name := of_decide_eq_true hsets
    exact if_pos rfl
  | _ => cases g <;> cases hsets

/-- Every gauge tells the truth, but for those that some request on the board owes, which has told the breaker what
    it is now. -/
def Covered (self : LLMRouter) (s : Site) (Γ : (bearers self).Board) : Prop :=
  ∀ name, Truthful self.replica name s ∨ ∃ i c, Γ i = some (c, .owes name (self.up s name))

section
variable {s s' : Site} {Γ : (bearers self).Board} {i : Nat} {c : Request} {g g' : Duty}

/-- An entry of a request that has nothing in hand is no cover. -/
theorem covers_other {name : String} {told : Bool} {j : Nat} {c' : Request} (hi : Γ i = some (c, g))
    (hj : Γ j = some (c', .owes name told)) (hg : g ≠ .owes name told) :
    Function.update Γ i (some (c, g')) j = some (c', .owes name told) := by
  rw [Function.update_of_ne]
  · exact hj
  · rintro rfl
    rw [hi] at hj
    cases hj
    exact hg rfl

/-- Asking a breaker something. -/
theorem ask_covers {replica : Nat} {name : String} {m : CircuitBreaker.Method} (h : self.Covered s Γ)
    (hi : Γ i = some (c, g)) (hg : g.idle = true)
    (hsets : replica = self.replica → Flips s replica name m → g.sets name m = true) :
    self.Covered (s.ask replica name m).2
      (Function.update Γ i (some (c, g.after (.breaker replica name m) (.ok (s.ask replica name m).1)))) := by
  intro n
  by_cases hhere : (replica = self.replica ∧ name = n) ∧ Flips s replica name m
  · obtain ⟨⟨rfl, rfl⟩, hflips⟩ := hhere
    exact .inr ⟨i, c, by rw [Function.update_self, after_sets (hsets rfl hflips) hflips]⟩
  · have hstate : ((s.ask replica name m).2.breakers self.replica n).state = .closed ↔
        (s.breakers self.replica n).state = .closed := by
      by_cases hown : replica = self.replica ∧ name = n
      · obtain ⟨rfl, rfl⟩ := hown
        have hflips : ¬Flips s self.replica name m := fun hflips => hhere ⟨⟨rfl, rfl⟩, hflips⟩
        unfold Flips at hflips
        tauto
      · rw [ask_others hown]
    have hgauges : (s.ask replica name m).2.gauges = s.gauges := rfl
    rcases h n with htrue | ⟨j, c', hj⟩
    · exact .inl ((truthful_congr hgauges hstate).mpr htrue)
    · refine .inr ⟨j, c', ?_⟩
      have hup : self.up (s.ask replica name m).2 n = self.up s n := decide_eq_decide.mpr (not_congr hstate)
      rw [hup]
      exact covers_other hi hj (ne_owes hg)

/-- Setting a gauge to what the breaker has been told. -/
theorem gauge_covers {name : String} {told : Bool} (h : self.Covered s Γ) (hi : Γ i = some (c, g))
    (hg : g.gauge = some (name, told))
    (htold : told = self.up s name ∨ ∃ j c', j ≠ i ∧ Γ j = some (c', .owes name (self.up s name))) :
    self.Covered (s.setGauge self.replica name told) (Function.update Γ i (some (c, g'))) := by
  intro n
  by_cases hn : name = n
  · subst hn
    rcases htold with rfl | ⟨j, c', hj, hΓ⟩
    · left
      show Function.update s.gauges self.replica (Function.update (s.gauges self.replica) name (some (self.up s name)))
        self.replica name = some true ↔ (s.breakers self.replica name).state ≠ .closed
      rw [Function.update_self, Function.update_self, Option.some_inj]
      exact decide_eq_true_iff
    · exact .inr ⟨j, c', (Function.update_of_ne hj ..).trans hΓ⟩
  · have hother : (s.setGauge self.replica name told).gauges self.replica n = s.gauges self.replica n := by
      show Function.update s.gauges self.replica (Function.update (s.gauges self.replica) name (some told)) self.replica n = _
      rw [Function.update_self, Function.update_of_ne (Ne.symm hn)]
    rcases h n with htrue | ⟨j, c', hj⟩
    · left
      unfold Truthful
      rw [hother]
      exact htrue
    · refine .inr ⟨j, c', covers_other hi hj fun howes => ?_⟩
      rw [howes] at hg
      exact hn (Prod.mk.inj (Option.some.inj hg)).1.symm

/-- What concerns neither. -/
theorem aside_covers (h : self.Covered s Γ) (hi : Γ i = some (c, g)) (hs : s'.breakers = s.breakers ∧ s'.gauges = s.gauges)
    (hg : ∀ name told, g = .owes name told → g' = .owes name told ∨ Truthful self.replica name s ∨
      ∃ j c', j ≠ i ∧ Γ j = some (c', .owes name (self.up s name))) :
    self.Covered s' (Function.update Γ i (some (c, g'))) := by
  intro n
  have hsame : Truthful self.replica n s' ↔ Truthful self.replica n s := truthful_congr hs.2 (by rw [hs.1])
  have hup : self.up s' n = self.up s n := by
    unfold up
    rw [hs.1]
  rw [hup]
  rcases h n with htrue | ⟨j, c', hj⟩
  · exact .inl (hsame.mpr htrue)
  · by_cases hji : j = i
    · subst hji
      rw [hi] at hj
      cases hj
      rcases hg n _ rfl with hg | htrue | ⟨j', c', hj', hΓ⟩
      · exact .inr ⟨j, c, by rw [Function.update_self, hg]⟩
      · exact .inl (hsame.mpr htrue)
      · exact .inr ⟨j', c', (Function.update_of_ne hj' ..).trans hΓ⟩
    · exact .inr ⟨j, c', (Function.update_of_ne hji ..).trans hj⟩

/-- An operation that is permitted, on a board that shows what every request has in hand. -/
theorem exec_covers {w : (requests self).World} {e : Op} {choice : Choice} {o : Except Exn e.Reply × Site}
    (h : self.Covered w.state Γ) (hi : Γ i = some (c, g)) (hmay : self.herald.may g e)
    (ho : Router.exec e choice w.state = some o) (hP : self.Permits w i choice e) (hg : g = self.standing i w.trace)
    (hbeside : ∀ name, self.OwedBeside w i name → ∃ j c', j ≠ i ∧ Γ j = some (c', .owes name (self.up w.state name))) :
    self.Covered o.2 (Function.update Γ i (some (c, g.after e o.1))) := by
  have hidle (hne : ∀ c, e ≠ .redis c) (hng : ∀ replica name up, e ≠ .gauge replica name up) : g.idle = true := by
    cases hg : g with
    | owes name told =>
      rcases hmay.1 name told hg with ⟨c, rfl⟩ | rfl
      · exact absurd rfl (hne c)
      · exact absurd rfl (hng _ _ _)
    | _ => rfl
  cases e with
  | breaker replica name m =>
    have hgidle := hidle nofun nofun
    cases choice <;> cases ho
    subst hg
    exact ask_covers h hi hgidle hP
  | gauge replica name told =>
    cases choice <;> cases ho
    obtain ⟨rfl, hgauge⟩ := hmay.2 replica name told rfl
    subst hg
    exact gauge_covers h hi hgauge ((hP name told hgauge).imp_right (hbeside name))
  | redis cmd =>
    refine aside_covers h hi (exec_aside ho nofun nofun) fun name told howes => ?_
    subst howes
    cases choice with
    | cancelled applied => exact .inr ((hP applied name told rfl hg.symm).imp_right (hbeside name))
    | lost applied =>
      cases ho
      exact .inl rfl
    | ok =>
      cases ho
      left
      show Duty.after (.owes name told) (.redis cmd) (w.state.toState.redis cmd).1 = _
      unfold State.redis
      split <;> rfl
    | _ => cases ho
  | _ =>
    have hgidle := hidle nofun nofun
    exact aside_covers h hi (exec_aside ho nofun nofun) fun name told hname => (ne_owes hgidle hname).elim

end

/-! ### Every run -/

theorem standing_did {i : Nat} {c : Request} {e : Op} {r : Except Exn e.Reply} {tr : List (requests self).Event} :
    self.standing i (.did i c e r :: tr) = (self.standing i tr).after e r := by
  unfold standing
  exact congrArg (List.foldr _ _) life_did

theorem standing_other {i : Nat} {v : (requests self).Event} {tr : List (requests self).Event} (hv : v.thread ≠ i) :
    self.standing i (v :: tr) = self.standing i tr := by
  unfold standing
  exact congrArg (List.foldr _ _) (life_other hv)

/-- The board shows what every request has in hand, and every gauge tells the truth or is owed. -/
structure GaugeInv (router : LLMRouter) (s : Site) (tr : List (requests router).Event) (Γ : (bearers router).Board) :
    Prop where
  hand : ∀ i c g, Γ i = some (c, g) → g = router.standing i tr
  covered : router.Covered s Γ

theorem kept_rules : Rules (bearers self) self.Heralds self.GaugeInv where
  start {w Γ i c} hΓ hJ hi _ _ := by
    refine ⟨fun j c' g hj => ?_, fun name => ?_⟩
    · rcases board_entry hj with ⟨rfl, hx⟩ | ⟨hne, hj⟩
      · cases hx
        unfold standing
        exact (congrArg (List.foldr _ _) life_start).symm
      · rw [standing_other (Ne.symm hne)]
        exact hJ.hand j c' g hj
    · rcases hJ.covered name with htrue | ⟨j, c', hj⟩
      · exact .inl htrue
      · refine .inr ⟨j, c', ?_⟩
        rw [Function.update_of_ne]
        · exact hj
        · rintro rfl
          rw [hi] at hj
          cases hj
  op {w Γ i choice c g e r s} hΓ hJ hi ht hmay hex hP := by
    have hg := hJ.hand i c g hi
    refine ⟨g.after e r, ⟨rfl, choice, _, _, hex, rfl⟩, fun j c' g' hj => ?_, ?_⟩
    · rcases board_entry hj with ⟨rfl, hx⟩ | ⟨hne, hj⟩
      · cases hx
        exact (congrArg (fun g : Duty => g.after e r) hg).trans standing_did.symm
      · rw [standing_other (Ne.symm hne)]
        exact hJ.hand j c' g' hj
    · obtain ⟨k, ht⟩ := ht
      have hop : w.opOf (.op i choice) = some e := by simp only [World.opOf, ht]
      refine exec_covers hJ.covered hi hmay hex (hP i choice rfl e hop) hg ?_
      rintro name ⟨j, hji, hj, howes⟩
      obtain ⟨t, ht⟩ := Option.isSome_iff_exists.mp hj
      obtain ⟨g', hg', -⟩ := hΓ.of_thread ht
      refine ⟨j, t.call, hji, ?_⟩
      rw [hg', hJ.hand j _ g' hg', howes]
  ended {s tr Γ i c g r} hJ hi hlast := by
    refine ⟨fun j c' g' hj => ?_, fun name => ?_⟩
    · obtain ⟨hne, hj⟩ := clear_entry hj
      rw [standing_other (Ne.symm hne)]
      exact hJ.hand j c' g' hj
    · rcases hJ.covered name with htrue | ⟨j, c', hj⟩
      · exact .inl htrue
      · refine .inr ⟨j, c', ?_⟩
        rw [Function.update_of_ne]
        · exact hj
        · rintro rfl
          rw [hi] at hj
          cases hj
          cases (hlast : Duty.idle _ = true)
  kill _ _ _ hm _ := by cases hm
  env {w Γ b s} hΓ hJ hb _ := by
    refine ⟨hJ.hand, fun name => ?_⟩
    have hup : self.up s name = self.up w.state name := by
      unfold up
      rw [env_same hb]
    rw [hup]
    exact (hJ.covered name).imp (env_truthful hb).mpr id

/-- In every run in which only what goes on to set the gauge opens or closes a circuit, and a request that has been
    overtaken or is cancelled leaves the gauge to another, the gauges tell the truth. -/
theorem gaugesTrue_of_heralds {w w' : (requests self).World} (hw : self.Untouched w)
    (h : World.Reaches self.Heralds w w') : self.GaugesTrue w' := by
  have hstart : ∃ Γ, (bearers self).Shows w Γ ∧ self.GaugeInv w.state w.trace Γ := by
    refine ⟨fun _ => none, fun i => ?_, nofun, fun name => .inl ?_⟩
    · rw [hw.threads i]
    · exact iff_of_false (hw.unset name) fun hne => hne (hw.closed name)
  obtain ⟨Γ, hΓ, hJ⟩ := kept_rules.reaches bearers_sound h hstart
  intro name howed
  rcases hJ.covered name with htrue | ⟨i, c, hi⟩
  · exact htrue
  · obtain ⟨p, hp⟩ := hΓ.thread hi
    exact absurd (hJ.hand i c _ hi).symm (howed i _ (by rw [hp]; rfl))

/-! ### A circuit that a bad request closes -/

namespace BadProbe
open Fallback (router request hello)

def breaker : CircuitBreaker := { failureThreshold := 1, cooldownSeconds := 30, positive := Int.one_pos }

def start : (requests router).World where
  state := { breakers := fun _ _ => breaker }

theorem untouched : router.Untouched start := ⟨fun _ => rfl, nofun, fun _ => rfl⟩

/-- The first deployment times out, which opens its circuit, and the second answers. -/
def outage : List (requests router).Act :=
  .start 0 (.complete request none) :: [.ok, .ok, .whole (.error .timeout), .ok, .elapsed 5, .ok, .ok, .ok,
    .ok, .ok, .whole (.ok hello), .ok, .elapsed 1, .ok, .ok].map (.op 0)

/-- Half a minute later a request probes the first deployment, which finds fault with the request. -/
def probe : List (requests router).Act :=
  .env (.clock 0 30) :: .start 0 (.complete request none) ::
    [.ok, .ok, .whole (.error (.provider "400: prompt is too long" false)), .ok, .ok, .elapsed 1].map (.op 0)

/-- The circuit is closed, and its gauge still up. -/
def wrong (w : (requests router).World) : Bool :=
  (w.threads 0).isNone && (w.state.breakers 0 "primary").state == .closed && w.state.gauges 0 "primary" == some true

theorem ends_wrong : (start.run (outage ++ probe)).any wrong = true := by decide +kernel

theorem not_gaugesTrue : ∃ w, World.Reaches World.anyStep start w ∧ (∀ i, w.threads i = none) ∧ ¬router.GaugesTrue w := by
  obtain ⟨w, hw, hwrong⟩ := (Option.any_eq_true _ _).mp ends_wrong
  simp only [wrong, Bool.and_eq_true, Option.isNone_iff_eq_none, beq_iff_eq] at hwrong
  obtain ⟨⟨hthread, hstate⟩, hgauge⟩ := hwrong
  have hthreads : ∀ i, w.threads i = none := by
    intro i
    by_cases hi : i = 0
    · rw [hi]
      exact hthread
    · refine World.run_threads (fun a ha h => ?_) hw
      have hall : ∀ a ∈ outage ++ probe, a.thread = none ∨ a.thread = some 0 := by decide
      rcases hall a ha with h' | h'
      · rw [h'] at h
        cases h
      · rw [h'] at h
        exact hi (Option.some.inj h).symm
  refine ⟨w, World.reaches_of_run (fun _ _ _ => trivial) hw, hthreads, fun h => ?_⟩
  have htrue := h "primary" fun i _ hi => by rw [hthreads i] at hi; cases hi
  exact htrue.mp hgauge hstate

/-- What the steps of the first request are checked for. -/
def permitted (s : Site) (g : Duty) : Op → Bool
  | .breaker replica name m => !decide (Flips s replica name m) || g.sets name m
  | .gauge _ _ _ => g.gauge.all fun told => told.2 == router.up s told.1
  | .redis _ => false
  | _ => true

theorem sets_of_permitted {s : Site} {g : Duty} {replica : Nat} {name : String} {m : CircuitBreaker.Method}
    (h : permitted s g (.breaker replica name m) = true) (hflips : Flips s replica name m) : g.sets name m = true := by
  have h : (!decide (Flips s replica name m) || g.sets name m) = true := h
  rwa [decide_eq_true hflips, Bool.not_true, Bool.false_or] at h

theorem permits_of_permitted {w : (requests router).World} {i : Nat} {choice : Choice} {e : Op}
    (h : permitted w.state (router.standing i w.trace) e = true) : router.Permits w i choice e := by
  cases e with
  | breaker replica name m => exact fun _ => sets_of_permitted h
  | gauge replica n up =>
    intro name told htold
    have h : ((router.standing i w.trace).gauge.all fun told => told.2 == router.up w.state told.1) = true := h
    rw [htold, Option.all_some, beq_iff_eq] at h
    exact .inl h
  | redis c => cases h
  | _ => trivial

/-- The step, if it is an operation, is permitted where it is taken. -/
def heralds (w : (requests router).World) (a : (requests router).Act) : Bool :=
  match a with
  | .op i choice => (w.opOf (.op i choice)).all fun e => permitted w.state (router.standing i w.trace) e
  | _ => true

theorem of_heralds {w : (requests router).World} {a : (requests router).Act} (h : heralds w a = true) :
    router.Heralds w a := by
  rintro i choice rfl e he
  have hall : (w.opOf (.op i choice)).all (fun e => permitted w.state (router.standing i w.trace) e) = true := h
  rw [he] at hall
  exact permits_of_permitted hall

/-- The circuit is open, and its gauge is up. -/
def right (w : (requests router).World) : Bool :=
  (w.state.breakers 0 "primary").state == .opened && w.state.gauges 0 "primary" == some true

theorem ends_right : (start.runIf heralds outage).any right = true := by decide +kernel

theorem outage_gaugesTrue : ∃ w, (w.state.breakers 0 "primary").state = .opened ∧ router.GaugesTrue w := by
  obtain ⟨w, hw, hright⟩ := (Option.any_eq_true _ _).mp ends_right
  simp only [right, Bool.and_eq_true, beq_iff_eq] at hright
  exact ⟨w, hright.1, gaugesTrue_of_heralds untouched (World.reaches_of_runIf (fun _ _ => of_heralds) hw)⟩

end BadProbe
end NexusGate.Gateway.LLMRouter
