import NexusGate.Async.Turns
import NexusGate.Theorems.Gateway.PooledFailures

/-! # How long a probe keeps its slot

A sync has the breaker of its replica adopt `HALF_OPEN` when it has read a count of failures but no `OPEN`, and
when it has won a claim; both give away the slot of a probe that is under way. As long as no sync does either, the
slot is kept until an outcome is recorded. -/

namespace NexusGate.Gateway.Router
open Async Redis System

/-! ### What a sync has read -/

/-- What has been read, with the reply to one more operation. -/
def see (seen : List (String × Redis.Reply Int)) : (e : Op) → Except Exn e.Reply → List (String × Redis.Reply Int)
  | .redis (.get key), .ok reply => (key, reply) :: seen
  | _, _ => seen

/-- There was a count of failures of the deployment, and no `OPEN`. -/
def Leftover (name : String) (seen : List (String × Redis.Reply Int)) : Prop :=
  (∃ n, (failsKey name, .bulk n) ∈ seen) ∧ ∃ reply, (openKey name, reply) ∈ seen ∧ ∀ b, reply ≠ .bulk b

/-- A claim to the probe of the deployment is answered and won: one that meets no Redis goes ahead. -/
def Wins (name : String) : (e : Op) → Except Exn e.Reply → Prop
  | .redis (.set key _ _ _), .ok reply => key = probeKey name ∧ reply = .ok
  | .redis (.set key _ _ _), .error x => key = probeKey name ∧ x.isException = true
  | _, _ => False

section
variable {cluster : ClusterBreakers}

/-- The keys that a call has read in what it has done, newest first, with what was there. -/
def gotten : List (methods cluster).Event → List (String × Redis.Reply Int)
  | [] => []
  | .did _ _ e r :: life => see (gotten life) e r
  | _ :: life => gotten life

/-- No sync of the replica that has read a count of failures but no `OPEN` looks at the breaker while it is half
    open, and none wins a claim; and no method of the breaker is called when an `OPEN` that it has adopted has
    outlived its own cooldown. -/
structure Sheltered (replica : Nat) (name : String) (w : (methods cluster).World) (a : (methods cluster).Act) :
    Prop where
  looks : ∀ i ch names k, a = .op i ch → w.threads i = some ⟨.sync replica names, .op (.breaker replica name .state) k⟩ →
    (w.state.breakers replica name).state = .halfOpen → ¬Leftover name (gotten (life i w.trace))
  claims : ∀ i ch names e k r s, a = .op i ch → w.threads i = some ⟨.sync replica names, .op e k⟩ →
    exec e ch w.state = some (r, s) → ¬Wins name e r
  due : ∀ m, Performs w a (.breaker replica name m) →
    (w.state.breakers replica name).due (w.state.clock replica) = false

end

/-- From when a half-open breaker lets its probe through until an outcome is recorded, it refuses every further
    request; the steps after the probe meet `P`. -/
def KeepsProbeSlot (cluster : ClusterBreakers)
    (P : Nat → String → (methods cluster).World → (methods cluster).Act → Prop) (start : Site) : Prop :=
  ∀ replica name w₁ a w₂ w₃ b, World.Reaches World.anyStep (quiet cluster start) w₁ →
    LetsProbe replica name w₁ a w₂ →
    World.Reaches (fun w a => NoOutcome replica name w a ∧ P replica name w a) w₂ w₃ →
    Performs w₃ b (.breaker replica name .allowRequest) → P replica name w₃ b →
    allows w₃.state replica name = false

/-! ### What a call looks at -/

/-- What a call has read, and the breaker it has looked at if it has done nothing since. -/
structure Looks where
  seen : List (String × Redis.Reply Int) := []
  last : Option String := none

/-- What a sync has seen after one more operation. -/
def Looks.next (g : Looks) (e : Op) (r : Except Exn e.Reply) : Looks where
  seen := see g.seen e r
  last := match e with
    | .breaker _ name .state => some name
    | _ => none

/-- A call keeps to the breakers of its replica, and looks at one twice in a row only with a count of failures but no
    `OPEN` in its hands. -/
def lookMonitor (replica : Nat) : Monitor Op Op.Reply Exn Looks where
  may g
    | .breaker r name m => r = replica ∧ (m = .state → g.last = some name → Leftover name g.seen)
    | _ => True
  next g e r g' := g' = g.next e r

/-- What looks at no breaker, and reads no key. -/
def Op.blind (replica : Nat) : Op → Prop
  | .breaker r _ m => r = replica ∧ m ≠ .state
  | .redis (.get _) => False
  | _ => True

section Follow
variable {cluster : ClusterBreakers} {replica : Nat} {name : String} {g : Looks}

theorem next_blind {e : Op} {r : Except Exn e.Reply} (he : e.blind replica) : (g.next e r).seen = g.seen := by
  cases e with
  | redis c => cases c <;> first | rfl | cases he
  | _ => rfl

theorem blind_follows {α : Type} {p : Program α} (hp : Hands (Op.blind replica) p) :
    Follows (lookMonitor replica) (fun _ g' => g'.seen = g.seen) p g := by
  refine hp.follows (M := lookMonitor replica) (I := fun g' => g'.seen = g.seen) ?_ ?_ (fun _ _ h => h) rfl
  · intro g' e _ he
    cases e with
    | breaker r name m => exact ⟨he.1, fun hm => absurd hm he.2⟩
    | _ => trivial
  · rintro g' e r g'' hg he rfl
    exact (next_blind he).trans hg

theorem claimProbe_blind : Hands (Op.blind replica) (cluster.claimProbe replica name) := by
  have claim : Hands (Op.blind replica) (redis (.set (probeKey name) 1 (some (wholeSeconds cluster.probeSeconds)) true)) :=
    Hands.call trivial
  have adopt : Hands (Op.blind replica) (breaker replica name (.adopt .halfOpen 0)) := Hands.call ⟨rfl, nofun⟩
  refine (hands_caught claim).bind fun reply => ?_
  rcases reply with x | reply
  · exact adopt
  · cases reply <;> first | exact adopt | trivial

theorem publishOpen_blind : Hands (Op.blind replica) (cluster.publishOpen name) := by
  refine (hands_caught (pipeline_hands fun c hc => ?_)).bind fun _ => trivial
  rcases List.mem_cons.mp hc with rfl | hc
  · trivial
  · obtain rfl := List.mem_singleton.mp hc
    trivial

theorem recordFailure_blind : Hands (Op.blind replica) (cluster.recordFailure replica name) := by
  have record : Hands (Op.blind replica) (breaker replica name .recordFailure) := Hands.call ⟨rfl, nofun⟩
  refine record.bind fun opened => ?_
  cases opened with
  | true => exact publishOpen_blind.bind fun _ => trivial
  | false =>
    refine (hands_caught (pipeline_hands fun c hc => ?_)).bind fun o => ?_
    · rcases List.mem_cons.mp hc with rfl | hc
      · trivial
      · obtain rfl := List.mem_singleton.mp hc
        trivial
    · split
      · rename_i count _
        have adopt : Hands (Op.blind replica) (breaker replica name (.adopt .opened count)) := Hands.call ⟨rfl, nofun⟩
        show Hands _ (ite _ _ _)
        split
        · exact publishOpen_blind.bind fun _ => adopt.bind fun _ => trivial
        · trivial
      · trivial

theorem recordSuccess_blind : Hands (Op.blind replica) (cluster.recordSuccess replica name) := by
  have record : Hands (Op.blind replica) (breaker replica name .recordSuccess) := Hands.call ⟨rfl, nofun⟩
  have delete : Hands (Op.blind replica) (redis (.del [failsKey name, openKey name, probeKey name])) := Hands.call trivial
  exact record.bind fun _ => (hands_caught delete).bind fun _ => trivial

/-- The first look at a breaker. -/
theorem look_follows (hlast : g.last = none) : Follows (lookMonitor replica)
    (fun _ g' => g'.seen = g.seen) (breaker replica name .state) g :=
  Follows.call_iff.mpr ⟨⟨rfl, fun _ hname => by rw [hlast] at hname; cases hname⟩, fun r g' hn => by rw [hn]; rfl⟩

theorem agreeOn_looks {openFlag fails : Redis.Reply Int} (hopen : (openKey name, openFlag) ∈ g.seen)
    (hfails : (failsKey name, fails) ∈ g.seen) :
    Follows (lookMonitor replica) (fun _ g' => g'.seen = g.seen) (cluster.agreeOn replica name openFlag fails) g := by
  refine Follows.op_iff.mpr ⟨trivial, fun r g' hn => ?_⟩
  subst hn
  cases r with
  | error x => rfl
  | ok known =>
    show Follows _ _ (ite _ _ _) _
    split
    · have adopt {state : BreakerState} {n : Int} : Hands (Op.blind replica) (breaker replica name (.adopt state n)) :=
        Hands.call ⟨rfl, nofun⟩
      split
      · refine (look_follows rfl).bind (fun state g' hg => ?_) fun _ _ hg => hg
        exact (blind_follows adopt).mono fun _ _ h => h.trans hg
      · rename_i hnot
        refine (look_follows rfl).bind (fun state g' hg => ?_) fun _ _ hg => hg
        show Follows _ _ (ite _ _ _) _
        split
        · exact (blind_follows claimProbe_blind).mono fun _ _ h => h.trans hg
        · split
          · rename_i n
            -- The second look: what was read is a count without `OPEN`.
            have hleft : Leftover name g'.seen := by
              rw [hg]
              exact ⟨⟨n, hfails⟩, openFlag, hopen, hnot⟩
            refine Follows.bind_iff.mpr (Follows.call_iff.mpr ⟨⟨rfl, fun _ _ => hleft⟩, ?_⟩)
            rintro (x | state') g'' rfl
            · exact hg
            · exact (blind_follows adopt).mono fun _ _ h => h.trans hg
          · exact hg
    · rfl

/-- The replies of a read, as they are remembered. -/
def Recalls (seen : List (String × Redis.Reply Int)) (keys : List String) (replies : List (Redis.Reply Int)) : Prop :=
  List.Forall₂ (fun key reply => (key, reply) ∈ seen) keys replies

theorem agree_looks : ∀ {names : List String} {replies : List (Redis.Reply Int)} {g : Looks},
    Recalls g.seen (ClusterBreakers.keysOf names) replies →
    Follows (lookMonitor replica) (fun _ _ => True) (cluster.agree replica names replies) g
  | [], _, _, h => trivial
  | m :: names, _, g, h => by
    rw [show ClusterBreakers.keysOf (m :: names) = openKey m :: failsKey m :: ClusterBreakers.keysOf names from rfl] at h
    obtain _ | ⟨hopen, _ | ⟨hfails, h⟩⟩ := h
    refine (agreeOn_looks hopen hfails).bind (fun _ g' hg => agree_looks ?_) fun _ _ _ => trivial
    rwa [hg]

theorem gets_look : ∀ {keys : List String} {g : Looks}, Follows (lookMonitor replica)
    (fun r g' => g.seen ⊆ g'.seen ∧ ∀ replies, r = .ok replies → Recalls g'.seen keys replies) (pipeline (keys.map .get)) g
  | [], g => ⟨fun _ h => h, fun _ h => by cases h; exact .nil⟩
  | key :: keys, g => pipeline_cons_follows trivial fun first g' hn => by
    subst hn
    refine (@gets_look keys _).mono fun others g'' ⟨hsub, hrecalls⟩ => ?_
    cases first with
    | error x => exact ⟨hsub, nofun⟩
    | ok reply =>
      refine ⟨fun x hx => hsub (List.mem_cons_of_mem _ hx), fun replies h => ?_⟩
      cases others with
      | error x => cases h
      | ok rest =>
        cases h
        exact .cons (hsub List.mem_cons_self) (hrecalls rest rfl)

theorem sync_looks {names : List String} :
    Follows (lookMonitor replica) (fun _ _ => True) (cluster.sync replica names) g := by
  refine Follows.op_iff.mpr ⟨trivial, fun now g₁ _ => ?_⟩
  cases now with
  | error x => trivial
  | ok now =>
    refine Follows.op_iff.mpr ⟨trivial, fun syncedAt g₂ _ => ?_⟩
    cases syncedAt with
    | error x => trivial
    | ok syncedAt =>
      show Follows _ _ (ite _ _ _) _
      split
      · trivial
      · refine Follows.op_iff.mpr ⟨trivial, fun r g₃ _ => ?_⟩
        cases r with
        | error x => trivial
        | ok _ =>
          have got : Follows (lookMonitor replica) (fun (r : Except Exn (Except Exn (List (Redis.Reply Int)))) g =>
              ∀ replies, r = .ok (.ok replies) → Recalls g.seen (ClusterBreakers.keysOf names) replies)
              (caught (pipeline (ClusterBreakers.reads names))) g₃ := by
            rw [ClusterBreakers.reads_eq]
            refine follows_caught (gets_look.mono fun r g' ⟨_, hrecalls⟩ => ?_)
            cases r with
            | ok replies => exact fun replies' h => by cases h; exact hrecalls replies rfl
            | error x =>
              show ite _ _ _
              split <;> exact fun _ h => by cases h
          refine got.bind (Q := fun _ _ => True) (fun o g' h => ?_) fun _ _ _ => trivial
          cases o with
          | error x => trivial
          | ok replies => exact agree_looks (h replies rfl)

variable (cluster) in
/-- Where a sync stands, and what every call has read and looked at. -/
def slotWatch : Watch (methods cluster) where
  G := SyncPhase × Looks
  monitor c := ((claimWatch cluster).monitor c).both (lookMonitor c.replica)
  first _ := (.idle, {})
  last _ _ _ := True

theorem slotWatch_sound : (slotWatch cluster).Sound := by
  intro c
  have looks : Follows (lookMonitor c.replica) (fun _ _ => True) (c.body cluster) {} := by
    cases c with
    | sync replica names => exact Follows.map (sync_looks.mono fun _ _ _ => trivial)
    | recordFailure replica name => exact Follows.map ((blind_follows recordFailure_blind).mono fun _ _ _ => trivial)
    | recordSuccess replica name => exact Follows.map ((blind_follows recordSuccess_blind).mono fun _ _ _ => trivial)
    | allowRequest replica name =>
      exact Follows.map (Follows.call_iff.mpr ⟨⟨rfl, fun hm => by cases hm⟩, fun _ _ _ => trivial⟩)
    | state replica name => exact Follows.map ((look_follows rfl).mono fun _ _ _ => trivial)
  exact ((claimWatch_sound c).both looks).mono fun _ _ _ => trivial

end Follow

/-! ### What is known of the running calls -/

section Steps
variable {cluster : ClusterBreakers} {replica : Nat} {name : String} {s s' : Site} {e : Op} {choice : Choice}
  {r : Except Exn e.Reply} {g g' : SyncPhase}

/-- A sync that stands behind a look at a breaker has looked at it. -/
theorem looked_of_next {c : Call} (hn : ((claimWatch cluster).monitor c).next g e r (.looked name)) :
    ∀ h : Looks, (h.next e r).last = some name := by
  cases c with
  | sync replica names =>
    cases e with
    | redis c =>
      cases c with
      | set key v ex nx =>
        cases r with
        | ok reply =>
          cases reply with
          | ok =>
            obtain ⟨_, _, h⟩ := hn
            cases h
          | _ => cases hn
        | error x =>
          change ite _ _ _ at hn
          split at hn
          · obtain ⟨_, _, h⟩ := hn
            cases h
          · cases hn
      | _ => cases hn
    | breaker r' name' m =>
      cases m with
      | state =>
        cases r with
        | ok state =>
          change SyncPhase.looked _ = ite _ _ _ at hn
          split at hn
          · cases hn
          · cases hn
            exact fun _ => rfl
        | error x => cases hn
      | _ => cases hn
    | _ => cases hn
  | _ => cases hn

/-- A sync that is ready to have a breaker adopt what it has read has looked at it twice. -/
theorem looks_of_ready {state : BreakerState} (hmay : (syncMonitor replica).may g e)
    (hn : (syncMonitor replica).next g e r (.ready name state)) (hex : exec e choice s = some (r, s')) :
    g = .looked name ∧ e = .breaker replica name .state ∧
      state = ((s.breakers replica name).refresh (s.clock replica)).state := by
  cases e with
  | redis c =>
    cases c with
    | set key v ex nx =>
      cases r with
      | ok reply =>
        cases reply with
        | ok =>
          obtain ⟨_, _, h⟩ := hn
          cases h
        | _ => cases hn
      | error x =>
        change ite _ _ _ at hn
        split at hn
        · obtain ⟨_, _, h⟩ := hn
          cases h
        · cases hn
    | _ => cases hn
  | breaker r' name' m =>
    cases m with
    | state =>
      obtain rfl : r' = replica := by
        simp only [syncMonitor] at hmay
        split at hmay
        · obtain ⟨n, he⟩ := hmay
          cases he
        · exact hmay
      cases r with
      | ok seen =>
        change SyncPhase.ready _ _ = ite _ _ _ at hn
        split at hn
        · rename_i hlooked
          cases hn
          cases choice with
          | ok =>
            simp only [exec, Site.ask, CircuitBreaker.call, Option.some.injEq, Prod.mk.injEq, Except.ok.injEq] at hex
            exact ⟨hlooked, rfl, hex.1.symm⟩
          | _ => cases hex
        · cases hn
      | error x => cases hn
    | _ => cases hn
  | _ => cases hn

/-- A sync that has won a claim has won it by this operation. -/
theorem wins_of_next (hn : (syncMonitor replica).next g e r (.won name)) : Wins name e r := by
  cases e with
  | redis c =>
    cases c with
    | set key v ex nx =>
      cases r with
      | ok reply =>
        cases reply with
        | ok =>
          obtain ⟨_, hkey, h⟩ := hn
          cases h
          exact ⟨hkey, rfl⟩
        | _ => cases hn
      | error x =>
        change ite _ _ _ at hn
        split at hn
        · rename_i hx
          obtain ⟨_, hkey, h⟩ := hn
          cases h
          exact ⟨hkey, hx⟩
        · cases hn
    | _ => cases hn
  | breaker r' name' m =>
    cases m with
    | state =>
      cases r with
      | ok state =>
        change SyncPhase.won _ = ite _ _ _ at hn
        split at hn <;> cases hn
      | error x => cases hn
    | _ => cases hn
  | _ => cases hn

/-- The board tells what a call has read, and that a call which stands anywhere has begun. -/
structure Traced (tr : List (methods cluster).Event) (i : Nat) (g : SyncPhase × Looks) : Prop where
  seen : g.2.seen = gotten (life i tr)
  looked : ∀ m, g.1 = .looked m → g.2.last = some m
  begun : g.1 ≠ .idle → life i tr ≠ []

theorem Traced.other {tr : List (methods cluster).Event} {x : (methods cluster).Event} {i j : Nat} {g : SyncPhase × Looks}
    (h : Traced tr j g) (hx : x.thread = i) (hji : j ≠ i) : Traced (x :: tr) j g := by
  have hlife : life j (x :: tr) = life j tr := life_other (hx ▸ hji.symm)
  exact ⟨hlife ▸ h.seen, h.looked, hlife ▸ h.begun⟩

/-- The board is true to the trace. -/
def AllTraced (tr : List (methods cluster).Event) (Γ : (slotWatch cluster).Board) : Prop :=
  ∀ i c g, Γ i = some (c, g) → Traced tr i g

theorem AllTraced.clear {tr : List (methods cluster).Event} {Γ : (slotWatch cluster).Board} {x : (methods cluster).Event}
    {i : Nat} (h : AllTraced tr Γ) (hx : x.thread = i) : AllTraced (x :: tr) (Function.update Γ i none) :=
  fun j c g hj => (h j c g (clear_entry hj).2).other hx (clear_entry hj).1

theorem tracedRules : Rules (slotWatch cluster) World.anyStep fun _ tr Γ => AllTraced tr Γ where
  start {w Γ i c} _ h _ _ _ := fun j c' g hj => by
    rcases board_entry hj with ⟨rfl, hx⟩ | ⟨hji, hj⟩
    · cases hx
      exact ⟨(congrArg gotten life_start).symm, nofun, fun hne => absurd rfl hne⟩
    · exact (h j c' g hj).other rfl hji
  op {w Γ i choice c g e r s} _ h hi _ hmay _ _ := by
    obtain ⟨g₁, hn⟩ := next_exists (r := r) hmay.1
    refine ⟨(g₁, g.2.next e r), ⟨hn, rfl⟩, fun j c' g' hj => ?_⟩
    rcases board_entry hj with ⟨rfl, hx⟩ | ⟨hji, hj⟩
    · cases hx
      refine ⟨(congrArg (fun seen => see seen e r) (h j c g hi).seen).trans (congrArg gotten life_did).symm, ?_, fun _ => ?_⟩
      · rintro m rfl
        exact looked_of_next hn g.2
      · rw [life_did]
        exact List.cons_ne_nil _ _
    · exact (h j c' g' hj).other rfl hji
  ended h _ _ := h.clear rfl
  kill _ h _ _ _ := h.clear rfl
  env _ h _ _ := h

/-- The slot is taken, and no sync is about to give it away. -/
structure SlotKept (replica : Nat) (name : String) (s : Site) (tr : List (methods cluster).Event)
    (Γ : (slotWatch cluster).Board) : Prop where
  taken : Taken (s.breakers replica name)
  ready : ∀ i names g state, Γ i = some (.sync replica names, g) → g.1 = .ready name state → state = .opened
  unclaimed : ∀ i names g, Γ i = some (.sync replica names, g) → g.1 ≠ .won name
  traced : AllTraced tr Γ

/-- Only what a sync has read can be adopted. -/
theorem SlotKept.adopts {tr : List (methods cluster).Event} {Γ : (slotWatch cluster).Board} {i : Nat} {c : Call}
    {g : SyncPhase × Looks} {state : BreakerState} {n : Int} (h : SlotKept replica name s tr Γ) (hg : Γ i = some (c, g))
    (hmay : ((claimWatch cluster).monitor c).may g.1 (.breaker replica name (.adopt state n))) : state = .opened := by
  cases c with
  | sync r' names =>
    change (syncMonitor r').may g.1 _ at hmay
    simp only [syncMonitor] at hmay
    split at hmay
    · rename_i name' state' hadopts
      obtain ⟨n', he⟩ := hmay
      cases he
      cases hphase : g.1 with
      | ready name' state' =>
        rw [hphase] at hadopts
        cases hadopts
        exact h.ready i names g state hg hphase
      | won name' =>
        rw [hphase] at hadopts
        cases hadopts
        exact absurd hphase (h.unclaimed i names g hg)
      | _ =>
        rw [hphase] at hadopts
        cases hadopts
    · exact hmay.2
  | _ => exact hmay

/-- What a sync finds when it looks at the breaker for the second time is `OPEN`. -/
theorem SlotKept.finds {tr : List (methods cluster).Event} {Γ : (slotWatch cluster).Board} {i : Nat} {names : List String}
    {g : SyncPhase × Looks} {state : BreakerState} (h : SlotKept replica name s tr Γ)
    (hg : Γ i = some (.sync replica names, g)) (hmay : (slotWatch cluster |>.monitor (.sync replica names)).may g e)
    (hex : exec e choice s = some (r, s')) (hn : (syncMonitor replica).next g.1 e r (.ready name state))
    (hdue : ∀ m, e = .breaker replica name m → (s.breakers replica name).due (s.clock replica) = false)
    (hlooks : e = .breaker replica name .state → (s.breakers replica name).state = .halfOpen →
      ¬Leftover name (gotten (life i tr))) : state = .opened := by
  obtain ⟨hlooked, rfl, rfl⟩ := looks_of_ready hmay.1 hn hex
  rw [refresh_of_not_due (hdue _ rfl)]
  rcases h.taken with ⟨hhalf, -⟩ | hopened
  · have htraced := h.traced i _ g hg
    have hleft := hmay.2.2 rfl (htraced.looked name hlooked)
    rw [htraced.seen] at hleft
    exact absurd hleft (hlooks rfl hhalf)
  · exact hopened

theorem SlotKept.clear {tr : List (methods cluster).Event} {Γ : (slotWatch cluster).Board} {x : (methods cluster).Event}
    {i : Nat} (h : SlotKept replica name s tr Γ) (hx : x.thread = i) :
    SlotKept replica name s (x :: tr) (Function.update Γ i none) :=
  ⟨h.taken, fun j names g state hj => h.ready j names g state (clear_entry hj).2,
    fun j names g hj => h.unclaimed j names g (clear_entry hj).2, h.traced.clear hx⟩

theorem slotRules (replica : Nat) (name : String) : Rules (slotWatch cluster)
    (fun w a => NoOutcome replica name w a ∧ Sheltered replica name w a) (SlotKept replica name) where
  start hshows h hnone hadmits _ := by
    refine ⟨h.taken, ?_, ?_, tracedRules.start hshows h.traced hnone hadmits trivial⟩
    · intro j names g state hj hphase
      rcases board_entry hj with ⟨-, hx⟩ | ⟨-, hj⟩
      · cases hx
        cases hphase
      · exact h.ready j names g state hj hphase
    · intro j names g hj hphase
      rcases board_entry hj with ⟨-, hx⟩ | ⟨-, hj⟩
      · cases hx
        cases hphase
      · exact h.unclaimed j names g hj hphase
  op {w Γ i choice c g e r s} hshows h hi hth hmay hex hP := by
    obtain ⟨hno, hshelter⟩ := hP
    obtain ⟨g', hn, htraced⟩ := tracedRules.op hshows h.traced hi hth hmay hex trivial
    obtain ⟨k, hk⟩ := hth
    have performs : Performs w (.op i choice) e := ⟨i, choice, c, k, rfl, hk⟩
    have hdue : ∀ m, e = .breaker replica name m → (w.state.breakers replica name).due (w.state.clock replica) = false :=
      fun m he => hshelter.due m (he ▸ performs)
    refine ⟨g', hn, ?_, ?_, ?_, htraced⟩
    · refine taken_exec h.taken hex ⟨fun he => hno.1 (he ▸ performs), fun he => hno.2 (he ▸ performs)⟩ ?_ hdue
      rintro state n rfl
      exact h.adopts hi hmay.1
    · intro j names g'' state hj hphase
      rcases board_entry hj with ⟨rfl, hx⟩ | ⟨-, hj⟩
      · cases hx
        refine h.finds hi hmay hex (hphase ▸ hn.1) hdue fun he => ?_
        subst he
        exact hshelter.looks j choice names k rfl hk
      · exact h.ready j names g'' state hj hphase
    · intro j names g'' hj hphase
      rcases board_entry hj with ⟨rfl, hx⟩ | ⟨-, hj⟩
      · cases hx
        exact hshelter.claims j choice names e k r s rfl hk hex (wins_of_next (hphase ▸ hn.1))
      · exact h.unclaimed j names g'' hj hphase
  ended h _ _ := h.clear rfl
  kill _ h _ _ _ := h.clear rfl
  env {w Γ b s} _ h hb _ := by
    have hsame : s.breakers replica name = w.state.breakers replica name := by rw [env_breakers hb]
    exact ⟨hsame ▸ h.taken, h.ready, h.unclaimed, h.traced⟩

/-- When a probe is let through, no sync of the replica is in the middle of a turn. -/
theorem slotKept_of_letsProbe {start : Site} {w₁ w₂ : (methods cluster).World} {a : (methods cluster).Act}
    (hrun : World.Reaches World.anyStep (quiet cluster start) w₁) (hlets : LetsProbe replica name w₁ a w₂) :
    ∃ Γ, (slotWatch cluster).Shows w₂ Γ ∧ SlotKept replica name w₂.state w₂.trace Γ := by
  have hquiet : ∃ Γ : (slotWatch cluster).Board, (slotWatch cluster).Shows (quiet cluster start) Γ ∧ AllTraced [] Γ :=
    ⟨fun _ => none, fun _ => rfl, nofun⟩
  obtain ⟨Γ₁, hΓ₁, -⟩ := tracedRules.reaches slotWatch_sound hrun hquiet
  have hrun₂ := hrun.tail ⟨a, trivial, hlets.step⟩
  obtain ⟨Γ, hΓ, htraced⟩ := tracedRules.reaches slotWatch_sound hrun₂ hquiet
  obtain ⟨j, choice, c, k, rfl, hj⟩ := hlets.performs
  obtain ⟨g₁, -, hfollows⟩ := hΓ₁.of_thread hj
  obtain ⟨hmay, hown, -⟩ := (Follows.op_iff.mp hfollows).1
  -- The call that asks is no sync, and it has left its place busy for nobody else.
  have hidle : ∀ i names g, Γ i = some (.sync replica names, g) → g.1.adopts = none := by
    intro i names g hi
    by_contra hadopts
    obtain ⟨⟨name', state⟩, hadopts⟩ := Option.ne_none_iff_exists'.mp hadopts
    obtain ⟨e, k', hthread, hf⟩ := hΓ.waits hi
    have hmay' := (Follows.op_iff.mp hf).1.1
    change (syncMonitor replica).may g.1 e at hmay'
    simp only [syncMonitor, hadopts] at hmay'
    obtain ⟨n, rfl⟩ := hmay'
    have hbegun : g.1 ≠ .idle := fun h => by
      rw [h] at hadopts
      cases hadopts
    have hbusy := World.Reaches.held hrun₂ (fun _ => rfl) i _ _ k' hthread rfl ((htraced i _ g hi).begun hbegun)
    have hplace : (methods cluster).place (.sync replica names) = (methods cluster).place c := hown
    rw [hplace] at hbusy
    obtain rfl := World.step_busy hlets.step hj hbusy
    obtain rfl : Call.sync replica names = c := World.step_call hlets.step hj hthread
    change (syncMonitor replica).may g₁.1 _ at hmay
    simp only [syncMonitor] at hmay
    split at hmay
    · obtain ⟨_, he⟩ := hmay
      cases he
    · exact hmay
  refine ⟨Γ, hΓ, taken_of_letsProbe hlets, fun i names g state hi hphase => ?_, fun i names g hi hphase => ?_, htraced⟩
  · have := hidle i names g hi
    rw [hphase] at this
    cases this
  · have := hidle i names g hi
    rw [hphase] at this
    cases this

theorem probe_slot_kept (cluster : ClusterBreakers) (start : Site) : KeepsProbeSlot cluster Sheltered start := by
  intro replica name w₁ a w₂ w₃ b hreach hlets hrun hasks hkeep
  obtain ⟨Γ, -, h⟩ := (slotRules replica name).reaches slotWatch_sound hrun (slotKept_of_letsProbe hreach hlets)
  show ((w₃.state.breakers replica name).allowRequest (w₃.state.clock replica)).1 = false
  rw [allowRequest_taken h.taken (hkeep.due _ hasks)]

end Steps

/-! ### A straggler -/

namespace Straggler

def shared : ClusterBreakers := { failureThreshold := 2, cooldownSeconds := 30 }

/-- Two replicas with closed breakers. -/
def start : Site where
  breakers := fun _ _ => { failureThreshold := 2, cooldownSeconds := 30, positive := by decide }
  known := fun _ => ["a"]

def okay (i n : Nat) : List (methods shared).Act := List.replicate n (.op i .ok)

/-- Two failures open the circuit of replica 0, whose cooldown runs out; its next request is a probe. -/
def before : List (methods shared).Act :=
  [.start 0 (.recordFailure 0 "a")] ++ okay 0 3 ++ [.start 1 (.recordFailure 0 "a")] ++ okay 1 3 ++
  [.env (.time 30000), .env (.clock 0 30), .start 2 (.allowRequest 0 "a")]

/-- Meanwhile replica 1 records a failure, the first one that is pooled since; replica 0 reads it. -/
def meanwhile : List (methods shared).Act :=
  [.start 3 (.recordFailure 1 "a")] ++ okay 3 3 ++ [.start 4 (.sync 0 ["a"])] ++ okay 4 9 ++
  [.start 5 (.allowRequest 0 "a")]

/-- Whether an operation records an outcome of the deployment on replica 0. -/
def outcome : Option Op → Bool
  | some (.breaker 0 "a" .recordFailure) => true
  | some (.breaker 0 "a" .recordSuccess) => true
  | _ => false

/-- No outcome of `a` comes in. -/
def checked (w : (methods shared).World) (a : (methods shared).Act) : Bool := !outcome (w.opOf a)

/-- The world in which replica 0 asks for its probe. -/
def asks : Option (methods shared).World := (quiet shared start).run before

theorem noOutcome_of_checked {w : (methods shared).World} {a : (methods shared).Act} (h : checked w a = true) :
    NoOutcome 0 "a" w a := by
  unfold checked at h
  exact ⟨fun hp => by simp [hp.opOf, outcome] at h, fun hp => by simp [hp.opOf, outcome] at h⟩

theorem asks_probe : asks.any (fun w => decide (((w.state.breakers 0 "a").refresh (w.state.clock 0)).state = .halfOpen) &&
    allows w.state 0 "a" && asking 0 "a" (w.opOf (.op 2 .ok)) && (w.step (.op 2 .ok)).isSome) = true := by
  decide +kernel

/-- The first request is let through as a probe. -/
theorem lets_probe : ∃ w₁ w₂, asks = some w₁ ∧ (asks.bind fun w => w.step (.op 2 .ok)) = some w₂ ∧
    World.Reaches World.anyStep (quiet shared start) w₁ ∧ LetsProbe 0 "a" w₁ (.op 2 .ok) w₂ := by
  obtain ⟨w₁, h₁, hprobe⟩ := (Option.any_eq_true _ asks).mp asks_probe
  simp only [Bool.and_eq_true, decide_eq_true_eq] at hprobe
  obtain ⟨⟨⟨hhalf, hallows⟩, hasking⟩, hstep⟩ := hprobe
  obtain ⟨w₂, h₂⟩ := Option.isSome_iff_exists.mp hstep
  refine ⟨w₁, w₂, h₁, ?_, World.reaches_of_run (fun _ _ _ => trivial) h₁, performs_of_asking hasking, hhalf, hallows, h₂⟩
  rw [h₁]
  exact h₂

theorem asks_again : ((asks.bind fun w => w.step (.op 2 .ok)).bind fun w => w.runIf checked meanwhile).any
    (fun w => allows w.state 0 "a" && asking 0 "a" (w.opOf (.op 5 .ok))) = true := by
  decide +kernel

/-- The probe of replica 0 is still under way when a second request is let through. -/
theorem not_keepsProbeSlot : ¬KeepsProbeSlot shared (fun _ _ => World.anyStep) start := by
  intro h
  obtain ⟨w₁, w₂, -, h₂, hreach, hlets⟩ := lets_probe
  obtain ⟨w₃, h₃, hagain⟩ := (Option.any_eq_true _ _).mp asks_again
  rw [Bool.and_eq_true] at hagain
  rw [h₂, Option.bind_some] at h₃
  have hfalse := h 0 "a" w₁ (.op 2 .ok) w₂ w₃ (.op 5 .ok) hreach hlets
    (World.reaches_of_runIf (fun w a hc => ⟨noOutcome_of_checked hc, trivial⟩) h₃) (performs_of_asking hagain.2) trivial
  rw [hagain.1] at hfalse
  cases hfalse

/-! A probe that keeps its slot: one sync finds nothing, and another adopts what replica 1 has published. -/

/-- Replica 0 reads the shared state; two failures open the circuit of replica 1; replica 0 reads that too. -/
def sheltering : List (methods shared).Act :=
  [.start 3 (.sync 0 ["a"])] ++ okay 3 7 ++ [.start 4 (.recordFailure 1 "a")] ++ okay 4 3 ++
  [.start 5 (.recordFailure 1 "a")] ++ okay 5 3 ++ [.env (.clock 0 2), .start 6 (.sync 0 ["a"])] ++ okay 6 8 ++
  [.start 7 (.allowRequest 0 "a")]

/-- The operation sets a key of Redis, as the claim of a probe does. -/
def claims : Op → Bool
  | .redis (.set _ _ _ _) => true
  | _ => false

/-- The reply is to a read of the failures of `a`. -/
def counted : String × Redis.Reply Int → Bool
  | (key, .bulk _) => key == failsKey "a"
  | _ => false

/-- A sync claims nothing, and has read no count. -/
def harmless (w : (methods shared).World) (i : Nat) : Bool :=
  match w.threads i with
  | some ⟨.sync _ _, .op e _⟩ => !claims e && !(gotten (life i w.trace)).any counted
  | _ => true

/-- The operation is on the breaker of `a` at the first replica. -/
def touching : Option Op → Bool
  | some (.breaker 0 "a" _) => true
  | _ => false

/-- The step keeps the probe: no outcome, no release by the local timer, and no harm from what a sync has read. -/
def shelters (w : (methods shared).World) (a : (methods shared).Act) : Bool :=
  checked w a && (!touching (w.opOf a) || !(w.state.breakers 0 "a").due (w.state.clock 0)) &&
    match a with
    | .op i _ => harmless w i
    | _ => true

theorem not_leftover {seen : List (String × Redis.Reply Int)} (h : seen.any counted = false) : ¬Leftover "a" seen := by
  rintro ⟨⟨n, hmem⟩, -⟩
  have hcounted : counted (failsKey "a", .bulk n) = true := beq_self_eq_true _
  exact Bool.eq_false_iff.mp h (List.any_eq_true.mpr ⟨_, hmem, hcounted⟩)

theorem not_wins {name : String} {e : Op} {r : Except Exn e.Reply} (h : claims e = false) : ¬Wins name e r := by
  cases e with
  | redis c => cases c <;> first | exact id | cases h
  | _ => exact id

theorem of_harmless {w : (methods shared).World} {i replica : Nat} {names : List String} {e : Op}
    {k : Except Exn e.Reply → Program Result} (h : harmless w i = true)
    (ht : w.threads i = some ⟨.sync replica names, .op e k⟩) :
    claims e = false ∧ (gotten (life i w.trace)).any counted = false := by
  simpa [harmless, ht] using h

theorem sheltered_of_shelters {w : (methods shared).World} {a : (methods shared).Act} (h : shelters w a = true) :
    NoOutcome 0 "a" w a ∧ Sheltered 0 "a" w a := by
  simp only [shelters, Bool.and_eq_true] at h
  obtain ⟨⟨hchecked, hdue⟩, hharmless⟩ := h
  refine ⟨noOutcome_of_checked hchecked, ?_, ?_, fun m hm => ?_⟩
  · rintro i ch names k rfl ht -
    exact not_leftover (of_harmless hharmless ht).2
  · rintro i ch names e k r s rfl ht -
    exact not_wins (of_harmless hharmless ht).1
  · rw [hm.opOf] at hdue
    simpa [touching] using hdue

theorem asks_later : ((asks.bind fun w => w.step (.op 2 .ok)).bind fun w => w.runIf shelters sheltering).any
    (fun w => asking 0 "a" (w.opOf (.op 7 .ok)) && shelters w (.op 7 .ok) && (w.state.breakers 0 "a").state == .opened) = true := by
  decide +kernel

/-- The circuit is open again when the second request comes, which is refused. -/
theorem sheltered_refuses : ∃ w₁ w₂ w₃, World.Reaches World.anyStep (quiet shared start) w₁ ∧
    LetsProbe 0 "a" w₁ (.op 2 .ok) w₂ ∧
    World.Reaches (fun w a => NoOutcome 0 "a" w a ∧ Sheltered 0 "a" w a) w₂ w₃ ∧
    (w₃.state.breakers 0 "a").state = .opened ∧ allows w₃.state 0 "a" = false := by
  obtain ⟨w₁, w₂, -, h₂, hreach, hlets⟩ := lets_probe
  obtain ⟨w₃, h₃, hlater⟩ := (Option.any_eq_true _ _).mp asks_later
  simp only [Bool.and_eq_true, beq_iff_eq] at hlater
  rw [h₂, Option.bind_some] at h₃
  have hrun := World.reaches_of_runIf (fun w a => sheltered_of_shelters) h₃
  exact ⟨w₁, w₂, w₃, hreach, hlets, hrun, hlater.2, probe_slot_kept shared start 0 "a" w₁ _ w₂ w₃ (.op 7 .ok) hreach hlets hrun
    (performs_of_asking hlater.1.1) (sheltered_of_shelters hlater.1.2).2⟩

end Straggler

end NexusGate.Gateway.Router
