import NexusGate.Theorems.Gateway.Freshness
import NexusGate.Theorems.Gateway.ProbeSlot

/-! # Who may probe

Once the shared `OPEN` key has expired, a replica whose own circuit is open lets nothing through before it has
won the claim to the probe, as long as its own cooldown does not run out first. -/

namespace NexusGate.Gateway.Router
open Async Redis System

/-! ### What a sync does between two suspensions -/

/-- Where a sync stands: it has looked at a breaker once, or it has read the state that the breaker is to adopt
    next, or it has won the claim to a probe. -/
inductive SyncPhase
  | idle
  | looked (name : String)
  | ready (name : String) (state : BreakerState)
  | won (name : String)
  deriving DecidableEq

/-- The state that the breaker has to adopt next, with nothing done in between. -/
def SyncPhase.adopts : SyncPhase → Option (String × BreakerState)
  | .ready name state => some (name, state)
  | .won name => some (name, .halfOpen)
  | _ => none

/-- What a sync does while no breaker has to adopt anything. -/
def Op.ofSync (replica : Nat) : Op → Prop
  | .breaker r _ .state => r = replica
  | .breaker r _ (.adopt state _) => r = replica ∧ state = .opened
  | .breaker _ _ _ => False
  | .redis (.set key _ ex nx) => ∃ name n, key = probeKey name ∧ ex = some n ∧ 0 < n ∧ nx = true
  | _ => True

/-- What a sync may do: a breaker that it has looked at adopts HALF_OPEN only on a claim that was won. -/
def syncMonitor (replica : Nat) : Monitor Op Op.Reply Exn SyncPhase where
  may g e := match g.adopts with
    | some (name, state) => ∃ n, e = .breaker replica name (.adopt state n)
    | none => e.ofSync replica
  next g e r g' := match e, r with
    | .breaker _ name .state, .ok state => g' = if g = .looked name then .ready name state else .looked name
    | .redis (.set key _ _ _), .ok .ok => ∃ name, key = probeKey name ∧ g' = .won name
    -- a claim that meets no Redis goes ahead
    | .redis (.set key _ _ _), .error x =>
      if x.isException then ∃ name, key = probeKey name ∧ g' = .won name else g' = .idle
    | _, _ => g' = .idle

/-- Other calls have no breaker adopt anything but `OPEN`. -/
def Op.adoptsOpen : Op → Prop
  | .breaker _ _ (.adopt state _) => state = .opened
  | _ => True

/-- The other calls have a breaker adopt nothing but OPEN. -/
def otherMonitor : Monitor Op Op.Reply Exn SyncPhase where
  may _ e := e.adoptsOpen
  next _ _ _ g' := g' = .idle

section
variable {cluster : ClusterBreakers} {replica : Nat} {name : String}

/-- What a `try: … except Exception` does, part by part. -/
theorem follows_caught {α G : Type} {M : Monitor Op Op.Reply Exn G} {Q : Except Exn (Except Exn α) → G → Prop}
    {p : Program α} {g : G}
    (h : Follows M (fun (r : Except Exn α) g' => match r with
      | .ok a => Q (.ok (.ok a)) g'
      | .error x => if x.isException then Q (.ok (.error x)) g' else Q (.error x) g') p g) :
    Follows M Q (caught p) g := by
  refine Follows.bind_iff.mpr (Follows.attempt_iff.mpr (h.mono fun r g' hr => ?_))
  cases r with
  | ok a => exact hr
  | error x =>
    show Follows M Q (ite _ _ _) g'
    dsimp only at hr
    split
    · rename_i hx
      rw [if_pos hx] at hr
      exact hr
    · rename_i hx
      rw [if_neg hx] at hr
      exact hr

theorem may_ofSync {g : SyncPhase} {e : Op} (hg : g.adopts = none) (he : e.ofSync replica) :
    (syncMonitor replica).may g e := by
  simp only [syncMonitor, hg]
  exact he

/-- What a claim leaves, by the reply to it. -/
def ClaimLeaves (name : String) : Except Exn (Except Exn (Redis.Reply Int)) → SyncPhase → Prop
  | .ok (.ok .ok), g | .ok (.error _), g => ∃ name', probeKey name = probeKey name' ∧ g = .won name'
  | _, g => g = .idle

theorem claimProbe_follows {g : SyncPhase} (hg : g.adopts = none) :
    Follows (syncMonitor replica) (fun _ g' => g'.adopts = none) (cluster.claimProbe replica name) g := by
  have adopt : ∀ {name' : String}, probeKey name = probeKey name' → Follows (syncMonitor replica)
      (fun (_ : Except Exn Unit) g' => g'.adopts = none) (breaker replica name (.adopt .halfOpen 0)) (.won name') :=
    fun h => by
      cases probeKey_inj.mp h
      exact Follows.call_iff.mpr ⟨⟨0, rfl⟩, fun r g' hn => by cases hn; rfl⟩
  refine (follows_caught (Q := ClaimLeaves name) (Follows.call_iff.mpr ⟨?_, fun r g' hn => ?_⟩)).bind ?_ ?_
  · exact may_ofSync hg ⟨name, _, rfl, rfl, wholeSeconds_pos, rfl⟩
  · cases r with
    | ok reply => cases reply <;> exact hn
    | error x =>
      cases hx : x.isException <;> simpa [syncMonitor, ClaimLeaves, hx] using hn
  · rintro (x | reply) g' h
    · obtain ⟨name', hname, rfl⟩ := h
      exact adopt hname
    · cases reply with
      | ok =>
        obtain ⟨name', hname, rfl⟩ := h
        exact adopt hname
      | _ =>
        cases h
        exact rfl
  · rintro x g' rfl
    rfl

/-- The first look at a breaker, and the second one. -/
theorem state_follows {g : SyncPhase} (hg : g.adopts = none) :
    Follows (syncMonitor replica) (fun (r : Except Exn BreakerState) g' => match r with
      | .ok state => g' = if g = .looked name then .ready name state else .looked name
      | .error _ => g' = .idle) (breaker replica name .state) g :=
  Follows.call_iff.mpr ⟨may_ofSync hg rfl, fun r g' hn => by cases r <;> exact hn⟩

theorem agreeOn_follows {openFlag fails : Redis.Reply Int} {g : SyncPhase} (hg : g.adopts = none) :
    Follows (syncMonitor replica) (fun _ g' => g'.adopts = none) (cluster.agreeOn replica name openFlag fails) g := by
  refine Follows.op_iff.mpr ⟨may_ofSync hg trivial, fun r g' hn => ?_⟩
  cases hn
  cases r with
  | error x => exact rfl
  | ok known =>
    show Follows _ _ (ite _ _ _) _
    split
    · split
      · refine (state_follows rfl).bind (fun state g' h => ?_) fun _ _ h => by cases h; rfl
        cases h
        exact Follows.call_iff.mpr ⟨⟨rfl, rfl⟩, fun r g'' hn => by cases hn; rfl⟩
      · refine (state_follows rfl).bind (fun state g' h => ?_) fun _ _ h => by cases h; rfl
        cases h
        show Follows _ _ (ite _ _ _) _
        split
        · exact claimProbe_follows rfl
        · split
          · refine (state_follows rfl).bind (fun state' g'' h => ?_) fun _ _ h => by cases h; rfl
            have h : g'' = .ready name state' := by simpa using h
            subst h
            exact Follows.call_iff.mpr ⟨⟨_, rfl⟩, fun r g'' hn => by cases hn; rfl⟩
          · exact rfl
    · exact rfl

theorem agree_follows : ∀ {names : List String} {results : List (Redis.Reply Int)} {g : SyncPhase}, g.adopts = none →
    Follows (syncMonitor replica) (fun _ g' => g'.adopts = none) (cluster.agree replica names results) g
  | [], _, _, hg | _ :: _, [], _, hg | _ :: _, [_], _, hg => hg
  | _ :: _, _ :: _ :: _, _, hg => (agreeOn_follows hg).bind (fun _ _ h => agree_follows h) fun _ _ h => h

theorem sync_follows {names : List String} :
    Follows (syncMonitor replica) (fun _ _ => True) (cluster.sync replica names) .idle := by
  refine Follows.op_iff.mpr ⟨trivial, fun now g hn => ?_⟩
  cases hn
  cases now with
  | error x => trivial
  | ok now =>
    refine Follows.op_iff.mpr ⟨trivial, fun syncedAt g hn => ?_⟩
    cases hn
    cases syncedAt with
    | error x => trivial
    | ok syncedAt =>
      show Follows _ _ (ite _ _ _) _
      split
      · trivial
      · refine Follows.op_iff.mpr ⟨trivial, fun r g hn => ?_⟩
        cases hn
        cases r with
        | error x => trivial
        | ok _ =>
          have gets : Hands (fun e => ∃ key, e = .redis (.get key)) (pipeline (ClusterBreakers.reads names)) :=
            pipeline_hands fun c hc => by
              rw [ClusterBreakers.reads_eq] at hc
              obtain ⟨key, -, rfl⟩ := List.mem_map.mp hc
              exact ⟨key, rfl⟩
          have got : Follows (syncMonitor replica) (fun _ g => g = SyncPhase.idle)
              (caught (pipeline (ClusterBreakers.reads names))) .idle :=
            (hands_caught gets).follows (M := syncMonitor replica) (I := fun g => g = .idle)
              (fun g e hg he => by obtain ⟨key, rfl⟩ := he; cases hg; trivial)
              (fun g e r g' hg he hn => by obtain ⟨key, rfl⟩ := he; exact hn) (fun _ _ h => h) rfl
          refine got.bind (Q := fun _ _ => True) (fun o g hg => ?_) fun _ _ _ => trivial
          cases hg
          cases o with
          | error x => trivial
          | ok results => exact (agree_follows rfl).mono fun _ _ _ => trivial

/-! ### What the other calls do -/

theorem publishOpen_hands : Hands Op.adoptsOpen (cluster.publishOpen name) :=
  (hands_caught (pipeline_hands fun _ _ => trivial)).bind fun _ => trivial

theorem recordFailure_hands : Hands Op.adoptsOpen (cluster.recordFailure replica name) := by
  refine (Hands.call trivial).bind fun opened => ?_
  cases opened with
  | true => exact publishOpen_hands.bind fun _ => trivial
  | false =>
    refine (hands_caught (pipeline_hands fun _ _ => trivial)).bind fun o => ?_
    split
    · rename_i count _
      have adopt : Hands Op.adoptsOpen (breaker replica name (.adopt .opened count)) := Hands.call rfl
      show Hands _ (ite _ _ _)
      split
      · exact publishOpen_hands.bind fun _ => adopt.bind fun _ => trivial
      · trivial
    · trivial

theorem recordSuccess_hands : Hands Op.adoptsOpen (cluster.recordSuccess replica name) :=
  (Hands.call trivial).bind fun _ => (hands_caught (Hands.call trivial)).bind fun _ => trivial

/-! ### The watch -/

variable (cluster) in
/-- Every sync is watched for its claims. -/
def claimWatch : Watch (methods cluster) where
  G := SyncPhase
  monitor
    | .sync replica _ => syncMonitor replica
    | _ => otherMonitor
  first _ := .idle
  last _ _ _ := True

theorem other_follows {α : Type} {Q : Except Exn α → SyncPhase → Prop} {p : Program α} (hp : Hands Op.adoptsOpen p)
    (hQ : ∀ r g, Q r g) : Follows otherMonitor Q p .idle :=
  hp.follows (M := otherMonitor) (I := fun _ => True) (fun _ _ _ he => he) (fun _ _ _ _ _ _ _ => trivial)
    (fun r g _ => hQ r g) trivial

theorem claimWatch_sound : (claimWatch cluster).Sound := fun c => by
  cases c with
  | sync replica names => exact Follows.map (sync_follows.mono fun _ _ _ => trivial)
  | recordFailure replica name => exact Follows.map (other_follows recordFailure_hands fun _ _ => trivial)
  | recordSuccess replica name => exact Follows.map (other_follows recordSuccess_hands fun _ _ => trivial)
  | allowRequest replica name => exact Follows.map (other_follows (Hands.call trivial) fun _ _ => trivial)
  | state replica name => exact Follows.map (other_follows (Hands.call trivial) fun _ _ => trivial)

/-! ### Claims -/

/-- The shared `OPEN` key of a deployment expires. -/
structure Expires (name : String) (w w' : (methods cluster).World) : Prop where
  time : ∃ milliseconds, w.step (.env (.time milliseconds)) = some w'
  live : live? w.state.time w.state.store (openKey name) ≠ none
  gone : live? w'.state.time w'.state.store (openKey name) = none

/-- Redis is within reach. -/
def Reachable (_w : (methods cluster).World) (a : (methods cluster).Act) : Prop := ∀ i applied, a ≠ .op i (.lost applied)

/-- No replica records an outcome of the deployment. -/
def NoOutcomes (name : String) (w : (methods cluster).World) (a : (methods cluster).Act) : Prop :=
  ∀ replica, NoOutcome replica name w a

/-- The replica asks its breaker whether a request may go, and it may. -/
structure LetsThrough (replica : Nat) (name : String) (w : (methods cluster).World) (a : (methods cluster).Act) :
    Prop where
  performs : Performs w a (.breaker replica name .allowRequest)
  allowed : allows w.state replica name = true
  runs : (w.step a).isSome = true

/-- A sync of the replica has won the claim to the probe. -/
def WonIn (replica : Nat) (name : String) (events : List (methods cluster).Event) : Prop :=
  ∃ i names v ex, Event.did (S := methods cluster) i (.sync replica names)
    (.redis (.set (probeKey name) v ex true)) (.ok .ok) ∈ events

/-- The replica has won the claim to the probe between the two. -/
def Claimed (replica : Nat) (name : String) (w w' : (methods cluster).World) : Prop :=
  ∃ events, w'.trace = events ++ w.trace ∧ WonIn replica name events

end

/-- Between the expiry of a shared `OPEN` key and the next outcome of its deployment, a replica whose own circuit
    was open when the key expired lets a request through only if it has won the claim to the probe since. The
    expiry meets `Q`, and the steps after it meet `P`. -/
def ProbesOnClaim (cluster : ClusterBreakers) (Q : Nat → String → (methods cluster).World → Prop)
    (P : Nat → String → (methods cluster).World → (methods cluster).World → (methods cluster).Act → Prop)
    (start : Site) : Prop :=
  ∀ replica name w₁ w₀ w a, World.Reaches World.anyStep (quiet cluster start) w₁ → Expires name w₁ w₀ →
    (w₀.state.breakers replica name).state = .opened → Q replica name w₀ →
    World.Reaches (fun w a => NoOutcomes name w a ∧ Reachable w a ∧ P replica name w₀ w a) w₀ w →
    LetsThrough replica name w a → P replica name w₀ w a → Claimed replica name w₀ w

section
variable {cluster : ClusterBreakers}

/-- No sync of the replica is about to have the breaker adopt another state than `OPEN`. -/
def Settled (replica : Nat) (name : String) (w : (methods cluster).World) : Prop :=
  ∀ i names state n k, w.threads i = some ⟨.sync replica names, .op (.breaker replica name (.adopt state n)) k⟩ →
    state = .opened

/-- Until the replica has won the claim, no method of its breaker is called when the cooldown of the breaker itself
    has run out. -/
def ClaimsInTime (replica : Nat) (name : String) (w₀ w : (methods cluster).World) (a : (methods cluster).Act) : Prop :=
  Claimed replica name w₀ w ∨ ∀ m, Performs w a (.breaker replica name m) →
    (w.state.breakers replica name).due (w.state.clock replica) = false

/-- The circuit is still open, and no sync of the replica is about to change that. -/
structure Shut (replica : Nat) (name : String) (s : Site) (Γ : (claimWatch cluster).Board) : Prop where
  opened : (s.breakers replica name).state = .opened
  ready : ∀ i names state, Γ i = some (.sync replica names, .ready name state) → state = .opened
  unclaimed : ∀ i names, Γ i ≠ some (.sync replica names, .won name)

section
variable {replica : Nat} {name : String} {s s' : Site} {Γ : (claimWatch cluster).Board} {i : Nat} {c : Call}
  {g g' : SyncPhase} {e : Op} {choice : Choice} {r : Except Exn e.Reply}

theorem syncMonitor_next (hmay : (syncMonitor replica).may g e) : ∃ g', (syncMonitor replica).next g e r g' := by
  cases e with
  | breaker r' name' m =>
    cases m with
    | state => cases r with
      | ok state => exact ⟨_, rfl⟩
      | error x => exact ⟨_, rfl⟩
    | _ => exact ⟨_, rfl⟩
  | redis c =>
    cases c with
    | set key v ex nx =>
      obtain ⟨name, hkey⟩ : ∃ name, key = probeKey name := by
        simp only [syncMonitor] at hmay
        split at hmay
        · obtain ⟨n, hmay⟩ := hmay
          cases hmay
        · exact ⟨hmay.choose, hmay.choose_spec.choose_spec.1⟩
      cases r with
      | ok reply =>
        cases reply with
        | ok => exact ⟨_, name, hkey, rfl⟩
        | _ => exact ⟨_, rfl⟩
      | error x =>
        by_cases hx : x.isException = true
        · exact ⟨.won name, by simpa [syncMonitor, hx] using hkey⟩
        · exact ⟨.idle, by simp [syncMonitor, hx]⟩
    | _ => exact ⟨_, rfl⟩
  | _ => exact ⟨_, rfl⟩

/-- Whatever a call is answered, it goes on. -/
theorem next_exists (hmay : ((claimWatch cluster).monitor c).may g e) : ∃ g', ((claimWatch cluster).monitor c).next g e r g' := by
  cases c with
  | sync r' names => exact syncMonitor_next hmay
  | _ => exact ⟨_, rfl⟩

theorem Shut.adopts {state : BreakerState} {n : Int} (h : Shut replica name s Γ) (hg : Γ i = some (c, g))
    (hmay : ((claimWatch cluster).monitor c).may g (.breaker replica name (.adopt state n))) : state = .opened := by
  cases c with
  | sync r' names =>
    change (syncMonitor r').may g _ at hmay
    simp only [syncMonitor] at hmay
    split at hmay
    · rename_i name' state' hadopts
      obtain ⟨n', he⟩ := hmay
      cases he
      cases g with
      | ready name' state' =>
        cases hadopts
        exact h.ready i names state hg
      | won name' =>
        cases hadopts
        exact absurd hg (h.unclaimed i names)
      | _ => cases hadopts
    · exact hmay.2
  | _ => exact hmay

theorem Shut.breaker (h : Shut replica name s Γ) (hg : Γ i = some (c, g)) (hmay : ((claimWatch cluster).monitor c).may g e)
    (hex : exec e choice s = some (r, s')) (hno : e ≠ .breaker replica name .recordFailure ∧ e ≠ .breaker replica name .recordSuccess)
    (hdue : ∀ m, e = .breaker replica name m → (s.breakers replica name).due (s.clock replica) = false) :
    (s'.breakers replica name).state = .opened := by
  rcases @exec_breaker replica name _ _ _ _ _ hex with hb | ⟨m, rfl, hb⟩
  · rw [hb]
    exact h.opened
  · rw [hb]
    have hnot := hdue m rfl
    cases m with
    | state =>
      simp only [CircuitBreaker.call, refresh_of_not_due hnot]
      exact h.opened
    | allowRequest =>
      simp only [CircuitBreaker.call, allowRequest_taken (Or.inr h.opened) hnot]
      exact h.opened
    | adopt state n =>
      obtain rfl := h.adopts hg hmay
      rfl
    | recordSuccess => exact absurd rfl hno.2
    | recordFailure => exact absurd rfl hno.1

/-- `SET` with a time to live is never an error. -/
theorem redis_set {key : String} {v : Int} {n : Nat} {nx : Bool} (hn : 0 < n) :
    ∃ reply, (s.redis (.set key v (some n) nx)).1 = .ok reply := by
  have hn0 : n ≠ 0 := by omega
  simp only [Site.redis, State.redis, Redis.exec, Option.some.injEq, hn0, if_false]
  split
  · rename_i h
    split at h <;> cases h
  · exact ⟨_, rfl⟩

/-- A sync that wins a claim says so. -/
theorem won_claims {name' : String} (hmay : (syncMonitor replica).may g e) (hex : exec e choice s = some (r, s'))
    (hlost : ∀ applied, choice ≠ .lost applied) (hn : (syncMonitor replica).next g e r (.won name')) {names : List String} :
    WonIn replica name' [Event.did (S := methods cluster) i (.sync replica names) e r] := by
  cases e with
  | redis c =>
    cases c with
    | set key v ex nx =>
      simp only [syncMonitor] at hmay
      split at hmay
      · obtain ⟨n, he⟩ := hmay
        cases he
      · obtain ⟨name, n, rfl, rfl, hpos, rfl⟩ := hmay
        cases r with
        | ok reply =>
          cases reply with
          | ok =>
            obtain ⟨name', hkey, hwon⟩ := hn
            cases hwon
            exact ⟨i, names, v, some n, by rw [← hkey]; exact List.mem_cons_self⟩
          | _ => cases hn
        | error x =>
          cases choice with
          | ok =>
            obtain ⟨reply, hreply⟩ := @redis_set s (probeKey name) v n true hpos
            simp only [exec, Option.some.injEq, Prod.ext_iff] at hex
            cases hreply.symm.trans hex.1
          | lost applied => exact absurd rfl (hlost applied)
          | cancelled applied =>
            cases hex
            cases hn
          | _ => cases hex
    | _ => cases hn
  | breaker r' name' m =>
    cases m with
    | state => cases r with
      | ok state =>
        change SyncPhase.won _ = ite _ _ _ at hn
        split at hn <;> cases hn
      | error x => cases hn
    | _ => cases hn
  | _ => cases hn

/-- A sync that has read the state of an open breaker twice has read `OPEN`. -/
theorem ready_opened {state : BreakerState} (hopen : (s.breakers replica name).state = .opened)
    (hmay : (syncMonitor replica).may g e) (hex : exec e choice s = some (r, s'))
    (hdue : ∀ m, e = .breaker replica name m → (s.breakers replica name).due (s.clock replica) = false)
    (hn : (syncMonitor replica).next g e r (.ready name state)) : state = .opened := by
  cases e with
  | breaker r' name' m =>
    cases m with
    | state =>
      have hr : r' = replica := by
        simp only [syncMonitor] at hmay
        split at hmay
        · obtain ⟨n, he⟩ := hmay
          cases he
        · exact hmay
      subst hr
      cases r with
      | ok seen =>
        change SyncPhase.ready _ _ = ite _ _ _ at hn
        split at hn
        · cases hn
          cases choice with
          | ok =>
            simp only [exec, Site.ask, CircuitBreaker.call, refresh_of_not_due (hdue _ rfl), Option.some.injEq,
              Prod.mk.injEq, Except.ok.injEq] at hex
            rw [← hex.1, hopen]
          | _ => cases hex
        · cases hn
      | error x => cases hn
    | _ => cases hn
  | redis c =>
    cases c with
    | set key v ex nx =>
      cases r with
      | ok reply =>
        cases reply with
        | ok =>
          obtain ⟨_, _, h⟩ := hn
          cases h
        | _ => cases hn
      | error x =>
        change ite _ _ _ at hn
        split at hn
        · obtain ⟨_, _, h⟩ := hn
          cases h
        · cases hn
    | _ => cases hn
  | _ => cases hn

/-- One operation keeps the circuit shut, or wins the claim. -/
theorem Shut.op (h : Shut replica name s Γ) (hg : Γ i = some (c, g)) (hmay : ((claimWatch cluster).monitor c).may g e)
    (hex : exec e choice s = some (r, s')) (hno : e ≠ .breaker replica name .recordFailure ∧ e ≠ .breaker replica name .recordSuccess)
    (hlost : ∀ applied, choice ≠ .lost applied)
    (hdue : ∀ m, e = .breaker replica name m → (s.breakers replica name).due (s.clock replica) = false)
    (hn : ((claimWatch cluster).monitor c).next g e r g') :
    WonIn replica name [Event.did (S := methods cluster) i c e r] ∨
      Shut replica name s' (Function.update Γ i (some (c, g'))) := by
  by_cases hwon : ∃ names, c = .sync replica names ∧ g' = .won name
  · obtain ⟨names, rfl, rfl⟩ := hwon
    exact Or.inl (won_claims hmay hex hlost hn)
  · refine Or.inr ⟨h.breaker hg hmay hex hno hdue, fun j names state hj => ?_, fun j names hj => ?_⟩
    · rcases board_entry hj with ⟨-, he⟩ | ⟨-, hj⟩
      · cases he
        exact ready_opened h.opened hmay hex hdue hn
      · exact h.ready j names state hj
    · rcases board_entry hj with ⟨-, he⟩ | ⟨-, hj⟩
      · cases he
        exact hwon ⟨names, rfl, rfl⟩
      · exact h.unclaimed j names hj

end

/-! ### Runs -/

theorem WonIn.cons {replica : Nat} {name : String} {events : List (methods cluster).Event}
    (v : (methods cluster).Event) (h : WonIn replica name events) : WonIn replica name (v :: events) := by
  obtain ⟨i, names, n, ex, hmem⟩ := h
  exact ⟨i, names, n, ex, List.mem_cons_of_mem v hmem⟩

theorem env_breakers {b : Env} {s s' : Site} (h : env b s = some s') : s'.breakers = s.breakers := by
  cases b with
  | time ms =>
    cases h
    rfl
  | store store =>
    cases h
    rfl
  | clock r q =>
    simp only [env] at h
    split at h
    · cases h
      rfl
    · cases h

/-- Since `w₀` the replica has won the claim, or the circuit has stayed shut. -/
def Kept (replica : Nat) (name : String) (w₀ : (methods cluster).World) (s : Site) (tr : List (methods cluster).Event)
    (Γ : (claimWatch cluster).Board) : Prop :=
  ∃ events, tr = events ++ w₀.trace ∧ (WonIn replica name events ∨ Shut replica name s Γ)

theorem claimWatch_rules (replica : Nat) (name : String) (w₀ : (methods cluster).World) :
    Rules (claimWatch cluster) (fun w a => NoOutcomes name w a ∧ Reachable w a ∧ ClaimsInTime replica name w₀ w a)
      (Kept replica name w₀) where
  start := by
    rintro w Γ i c - ⟨events, htr, h⟩ - - -
    refine ⟨.start i c :: events, by rw [htr]; rfl, h.imp (WonIn.cons _) fun h => ⟨h.opened, ?_, ?_⟩⟩
    · intro j names state hj
      rcases board_entry hj with ⟨-, he⟩ | ⟨-, hj⟩
      · cases he
      · exact h.ready j names state hj
    · intro j names hj
      rcases board_entry hj with ⟨-, he⟩ | ⟨-, hj⟩
      · cases he
      · exact h.unclaimed j names hj
  op := by
    rintro w Γ i choice c g e r s - ⟨events, htr, h⟩ hg ⟨k, ht⟩ hmay hex ⟨hno, hlost, hclaims⟩
    obtain ⟨g', hn⟩ := next_exists (r := r) hmay
    refine ⟨g', hn, .did i c e r :: events, by rw [htr]; rfl, ?_⟩
    have hwon : WonIn replica name events ∨ WonIn replica name [Event.did (S := methods cluster) i c e r] ∨
        Shut replica name s (Function.update Γ i (some (c, g'))) := by
      rcases h with h | h
      · exact Or.inl h
      · rcases hclaims with ⟨events', htr', h'⟩ | hdue
        · rw [htr, List.append_cancel_right_eq] at htr'
          exact Or.inl (htr' ▸ h')
        · have performs : Performs w (.op i choice) e := ⟨i, choice, c, k, rfl, ht⟩
          exact Or.inr (h.op hg hmay hex
            ⟨fun he => (hno replica).1 (he ▸ performs), fun he => (hno replica).2 (he ▸ performs)⟩
            (fun applied he => hlost i applied (by rw [he])) (fun m he => hdue m (he ▸ performs)) hn)
    rcases hwon with h | ⟨j, names, v, ex, hmem⟩ | h
    · exact Or.inl (h.cons _)
    · exact Or.inl ⟨j, names, v, ex, List.mem_cons.mpr (Or.inl (List.mem_singleton.mp hmem))⟩
    · exact Or.inr h
  ended := by
    rintro s tr Γ i c g r ⟨events, htr, h⟩ - -
    refine ⟨.ended i c r :: events, by rw [htr]; rfl, h.imp (WonIn.cons _) fun h => ⟨h.opened, ?_, ?_⟩⟩
    · exact fun j names state hj => h.ready j names state (clear_entry hj).2
    · exact fun j names hj => h.unclaimed j names (clear_entry hj).2
  kill := by
    rintro w Γ i c g - - - hm -
    cases hm
  env := by
    rintro w Γ b s - ⟨events, htr, h⟩ hb -
    exact ⟨events, htr, h.imp_right fun h => ⟨by rw [env_breakers hb]; exact h.opened, h.ready, h.unclaimed⟩⟩

/-- What the calls do can be watched in every run. -/
theorem shows_of_reaches {start : Site} {w : (methods cluster).World}
    (h : World.Reaches World.anyStep (quiet cluster start) w) : ∃ Γ, (claimWatch cluster).Shows w Γ := by
  have R : Rules (claimWatch cluster) World.anyStep fun _ _ _ => True :=
    { start := fun _ _ _ _ _ => trivial
      op := fun _ _ _ _ hmay _ _ => (next_exists hmay).imp fun _ hn => ⟨hn, trivial⟩
      ended := fun _ _ _ => trivial
      kill := fun _ _ _ _ _ => trivial
      env := fun _ _ _ _ => trivial }
  obtain ⟨Γ, hΓ, -⟩ := R.reaches claimWatch_sound h ⟨fun _ => none, fun _ => rfl, trivial⟩
  exact ⟨Γ, hΓ⟩

theorem shut_of_settled {replica : Nat} {name : String} {w : (methods cluster).World} {Γ : (claimWatch cluster).Board}
    (hΓ : (claimWatch cluster).Shows w Γ) (hopened : (w.state.breakers replica name).state = .opened)
    (hsettled : Settled replica name w) : Shut replica name w.state Γ := by
  have adopts : ∀ i names g state, Γ i = some (.sync replica names, g) → g.adopts = some (name, state) → state = .opened := by
    intro i names g state hg hadopts
    have := hΓ i
    split at this
    · rw [this] at hg
      cases hg
    · rename_i t ht
      obtain ⟨⟨e, k, hp⟩, g', hg', hf⟩ := this
      rw [hg] at hg'
      obtain ⟨c, p⟩ := t
      cases hg'
      rw [show p = .op e k from hp] at hf ht
      obtain ⟨hmay, -⟩ := Follows.op_iff.mp hf
      change (syncMonitor replica).may g e at hmay
      simp only [syncMonitor, hadopts] at hmay
      obtain ⟨n, rfl⟩ := hmay
      exact hsettled i names state n k ht
  refine ⟨hopened, fun i names state hg => adopts i names _ state hg rfl, fun i names hg => ?_⟩
  cases adopts i names _ .halfOpen hg rfl

theorem probes_on_claim (cluster : ClusterBreakers) (start : Site) : ProbesOnClaim cluster Settled ClaimsInTime start := by
  intro replica name w₁ w₀ w a h₁ hexpires hopened hsettled hrun hlets hclaims
  obtain ⟨ms, hstep⟩ := hexpires.time
  obtain ⟨Γ, hΓ⟩ := shows_of_reaches (h₁.tail ⟨_, trivial, hstep⟩)
  obtain ⟨Γ', hΓ', events, htr, h⟩ := (claimWatch_rules replica name w₀).reaches claimWatch_sound hrun
    ⟨Γ, hΓ, [], rfl, Or.inr (shut_of_settled hΓ hopened hsettled)⟩
  rcases h with h | h
  · exact ⟨events, htr, h⟩
  · rcases hclaims with hclaimed | hdue
    · exact hclaimed
    · have hrefuses : allows w.state replica name = false := by
        show ((w.state.breakers replica name).allowRequest (w.state.clock replica)).1 = false
        rw [allowRequest_taken (Or.inr h.opened) (hdue _ hlets.performs)]
      rw [hlets.allowed] at hrefuses
      cases hrefuses

end

/-! ### A replica that has been idle -/

namespace Idle

def shared : ClusterBreakers := { failureThreshold := 1, cooldownSeconds := 30 }

/-- Two replicas with closed breakers. -/
def start : Site where
  breakers := fun _ _ => { failureThreshold := 1, cooldownSeconds := 30, positive := Int.one_pos }
  known := fun _ => ["a"]

def okay (i n : Nat) : List (methods shared).Act := List.replicate n (.op i .ok)

/-- Replica 0 opens the circuit, and replica 1 adopts that. -/
def before : List (methods shared).Act :=
  [.start 0 (.recordFailure 0 "a")] ++ okay 0 3 ++ [.start 1 (.sync 1 ["a"])] ++ okay 1 8

/-- Replica 1 has nothing to do until ten seconds after the key has expired; then it reads the shared state, and
    asks for a request. -/
def later : List (methods shared).Act :=
  [.env (.time 10000), .env (.clock 1 40), .start 2 (.sync 1 ["a"])] ++ okay 2 7 ++ [.start 3 (.allowRequest 1 "a")]

/-- A breaker of `a` takes in an outcome. -/
def outcome : Option Op → Bool
  | some (.breaker _ "a" .recordFailure) => true
  | some (.breaker _ "a" .recordSuccess) => true
  | _ => false

/-- The reply to the operation is lost. -/
def lost : (methods shared).Act → Bool
  | .op _ (.lost _) => true
  | _ => false

/-- No outcome of `a` comes in, and no reply is lost. -/
def checked (w : (methods shared).World) (a : (methods shared).Act) : Bool := !outcome (w.opOf a) && !lost a

/-- Whether an event is no claim to a probe. -/
def claimless : (methods shared).Event → Bool
  | .did _ _ (.redis (.set _ _ _ nx)) _ => !nx
  | _ => true

theorem of_checked {w : (methods shared).World} {a : (methods shared).Act} (h : checked w a = true) :
    NoOutcomes "a" w a ∧ Reachable w a := by
  unfold checked at h
  rw [Bool.and_eq_true] at h
  refine ⟨fun r => ⟨fun hp => by simp [hp.opOf, outcome] at h, fun hp => by simp [hp.opOf, outcome] at h⟩, ?_⟩
  rintro i applied rfl
  cases h.2

/-- The worlds just before and just after the key expires. -/
def openWorld : Option (methods shared).World := (quiet shared start).run before

/-- The deadline of the circuit is over. -/
def expired : Option (methods shared).World := openWorld.bind fun w => w.step (.env (.time 30000))

theorem expires : openWorld.any (fun w => (live? w.state.time w.state.store (openKey "a")).isSome) = true ∧
    expired.any (fun w => (live? w.state.time w.state.store (openKey "a")).isNone &&
      decide ((w.state.breakers 1 "a").state = .opened)) = true := by
  decide +kernel

theorem lets_through : (expired.bind fun w => w.runIf checked later).any (fun w =>
    allows w.state 1 "a" && asking 1 "a" (w.opOf (.op 3 .ok)) && (w.step (.op 3 .ok)).isSome && w.trace.all claimless) = true := by
  decide +kernel

theorem not_claimed {w w' : (methods shared).World} (h : w'.trace.all claimless = true) : ¬Claimed 1 "a" w w' := by
  rintro ⟨events, htr, i, names, v, ex, hmem⟩
  rw [htr] at h
  cases List.all_eq_true.mp h _ (List.mem_append_left _ hmem)

/-- Replica 1 lets a request through without a claim. -/
theorem not_probesOnClaim : ¬ProbesOnClaim shared (fun _ _ _ => True) (fun _ _ _ => World.anyStep) start := by
  intro h
  obtain ⟨hlive, hgone⟩ := expires
  obtain ⟨w, hw, hlets⟩ := (Option.any_eq_true _ _).mp lets_through
  obtain ⟨w₀, h₀, hw⟩ := Option.bind_eq_some_iff.mp hw
  rw [h₀, Option.any_some] at hgone
  obtain ⟨w₁, h₁, hstep⟩ := Option.bind_eq_some_iff.mp h₀
  rw [h₁, Option.any_some] at hlive
  simp only [Bool.and_eq_true, decide_eq_true_eq] at hgone hlets
  refine not_claimed hlets.2 (h 1 "a" w₁ w₀ w (.op 3 .ok) (World.reaches_of_run (fun _ _ _ => trivial) h₁)
    ⟨⟨_, hstep⟩, ?_, Option.isNone_iff_eq_none.mp hgone.1⟩ hgone.2 trivial
    (World.reaches_of_runIf (fun w a hc => ⟨(of_checked hc).1, (of_checked hc).2, trivial⟩) hw)
    ⟨performs_of_asking hlets.1.1.2, hlets.1.1.1, hlets.1.2⟩ trivial)
  exact Option.isSome_iff_ne_none.mp hlive

end Idle

end NexusGate.Gateway.Router
