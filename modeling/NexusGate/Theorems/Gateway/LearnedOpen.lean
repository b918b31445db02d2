import NexusGate.Theorems.Gateway.PooledFailures

/-! # Every replica learns that a circuit is open

A sync that reads the shared state while the `OPEN` key of a deployment is there has the breaker of its replica
adopt `OPEN`, and the breaker keeps to that unless something else changes it. -/

namespace NexusGate.Gateway.Router
open Async Redis System

section
variable {cluster : ClusterBreakers}

/-- The `OPEN` key of the deployment is there. -/
def OpenExists (name : String) (w : (methods cluster).World) : Prop :=
  ∃ b, value? w.state.time w.state.store (openKey name) = some (.str b)

/-- Call `i`, a sync of the replica, has had the breaker adopt `OPEN`. -/
def AdoptedIn (replica : Nat) (name : String) (i : Nat) (events : List (methods cluster).Event) : Prop :=
  ∃ names n r, Event.did (S := methods cluster) i (.sync replica names) (.breaker replica name (.adopt .opened n)) r ∈ events

/-- A sync that has read the shared state, and has not ended yet. -/
structure Effective (replica : Nat) (names : List String) (i : Nat) (during : List (methods cluster).Event) : Prop where
  stamped : ∃ now, Event.did (S := methods cluster) i (.sync replica names) (.stamp replica now) (.ok ()) ∈ during
  running : ∀ c r, Event.ended (S := methods cluster) i c r ∉ during

end

/-- After an effective sync that covers a deployment and meets its `OPEN` key, the breaker of the replica is open and
    refuses requests, as long as the key is there and no success is recorded. The steps meet `P`. -/
def LearnsOpen (cluster : ClusterBreakers)
    (P : Nat → String → Nat → (methods cluster).World → (methods cluster).World → (methods cluster).Act → Prop)
    (start : Site) : Prop :=
  ∀ replica name names i w₁ w₂ w₃ later during result, World.Reaches World.anyStep (quiet cluster start) w₁ →
    w₁.step (.start i (.sync replica names)) = some w₂ → name ∈ names → name ∈ w₁.state.known replica →
    World.Reaches (fun w a => OpenExists name w ∧ Served w a ∧ ¬Performs w a (.breaker replica name .recordSuccess) ∧
      P replica name i w₂ w a) w₂ w₃ →
    OpenExists name w₃ →
    w₃.trace = later ++ .ended i (.sync replica names) (.ok result) :: during ++ w₂.trace →
    Effective replica names i during →
    (w₃.state.breakers replica name).state = .opened ∧ ∀ a, Performs w₃ a (.breaker replica name .allowRequest) →
      P replica name i w₂ w₃ a → allows w₃.state replica name = false

/-- Pooled failures open the circuit, and every replica learns it. -/
def OpensEverywhere (cluster : ClusterBreakers)
    (P : Nat → String → Nat → (methods cluster).World → (methods cluster).World → (methods cluster).Act → Prop)
    (start : Site) : Prop :=
  OpensOnFailures cluster start ∧ LearnsOpen cluster P start

/-- No sync has the breaker adopt a state other than `OPEN`, and none of its methods is called when an `OPEN`
    that it has adopted has outlived its own cooldown. -/
structure Unreleased {cluster : ClusterBreakers} (replica : Nat) (name : String) (w : (methods cluster).World)
    (a : (methods cluster).Act) : Prop where
  adopts : ∀ state n, Performs w a (.breaker replica name (.adopt state n)) → state = .opened
  due : ∀ m, Performs w a (.breaker replica name m) →
    (w.state.breakers replica name).due (w.state.clock replica) = false

/-- Once the sync has had the breaker adopt `OPEN`, no other sync has it adopt another state, and none of its methods
    is called when that `OPEN` has outlived the breaker's own cooldown. -/
def HoldsOpen {cluster : ClusterBreakers} (replica : Nat) (name : String) (i : Nat) (w₂ w : (methods cluster).World)
    (a : (methods cluster).Act) : Prop :=
  (∃ events, w.trace = events ++ w₂.trace ∧ AdoptedIn replica name i events) → Unreleased replica name w a

/-! ### What a sync does -/

/-- Where a sync stands: it owes the breaker of a deployment what it reads, or it has had it adopt `OPEN`. -/
inductive LearnPhase
  | idle
  | owing
  | paid
  deriving DecidableEq

/-- What a sync owes to the breaker of `name` once it has stamped its time. -/
def learnMonitor (replica : Nat) (name : String) : Monitor Op Op.Reply Exn LearnPhase where
  may _ _ := True
  next g e r g' := match e with
    | .stamp _ _ => g' = .owing
    | .redis (.get key) => (key = openKey name → ∀ reply, r = .ok reply → ∃ b, reply = .bulk b) ∧
        (∀ x, r = .error x → x = .cancelled) ∧ g' = g
    | .known r' m => (r' = replica ∧ m = name → r = .ok true) ∧ g' = g
    | .breaker r' m (.adopt state _) => g' = if r' = replica ∧ m = name ∧ state = .opened then .paid else g
    | _ => g' = g

section
variable {cluster : ClusterBreakers} {replica : Nat} {name : String}

theorem next_ne_owing {g g' : LearnPhase} {e : Op} {r : Except Exn e.Reply} (he : e.afterReads)
    (hn : (learnMonitor replica name).next g e r g') (hg : g ≠ .owing) : g' ≠ .owing := by
  cases e with
  | redis c =>
    cases c with
    | set key v ex nx =>
      obtain rfl : g' = g := hn
      exact hg
    | _ => cases he
  | known r' m =>
    obtain rfl : g' = g := hn.2
    exact hg
  | breaker r' m method =>
    cases method with
    | adopt state n =>
      have hn : g' = if r' = replica ∧ m = name ∧ state = .opened then .paid else g := hn
      split at hn
      · simp [hn]
      · rwa [hn]
    | _ =>
      obtain rfl : g' = g := hn
      exact hg
  | _ => cases he

/-- A sync that meets the key has the breaker adopt `OPEN`. -/
theorem agreeOn_learns {b : Int} {fails : Redis.Reply Int} {g : LearnPhase} : Follows (learnMonitor replica name)
    (fun r g' => ∀ a, r = .ok a → g' ≠ .owing) (cluster.agreeOn replica name (.bulk b) fails) g := by
  refine Follows.op_iff.mpr ⟨trivial, fun r g₁ hn => ?_⟩
  obtain ⟨hknown, -⟩ := hn
  obtain rfl := hknown ⟨rfl, rfl⟩
  refine Follows.op_iff.mpr ⟨trivial, fun r g₂ hn => ?_⟩
  cases r with
  | error x => exact fun a ha => by cases ha
  | ok state =>
    refine Follows.op_iff.mpr ⟨trivial, fun r g₃ hn => ?_⟩
    have hn : g₃ = _ := hn
    rw [if_pos ⟨rfl, rfl, rfl⟩] at hn
    subst hn
    cases r with
    | error x => exact fun a ha => by cases ha
    | ok _ => exact fun a _ hc => by cases hc

/-- The replies of a read in which the key has been met. -/
def Met (name : String) (cs : List (Cmd Int)) (replies : List (Redis.Reply Int)) : Prop :=
  List.Forall₂ (fun c reply => c = .get (openKey name) → ∃ b, reply = .bulk b) cs replies

theorem agree_learns : ∀ {names : List String} {replies : List (Redis.Reply Int)} {g : LearnPhase},
    Met name (ClusterBreakers.reads names) replies → Follows (learnMonitor replica name)
      (fun r g' => ∀ a, r = .ok a → g ≠ .owing ∨ name ∈ names → g' ≠ .owing) (cluster.agree replica names replies) g
  | [], _, _, h => by
    cases h
    exact fun _ _ h => h.resolve_right List.not_mem_nil
  | m :: names, _, g, h => by
    rw [show ClusterBreakers.reads (m :: names) = .get (openKey m) :: .get (failsKey m) :: ClusterBreakers.reads names from rfl] at h
    obtain _ | ⟨hopen, _ | ⟨-, h⟩⟩ := h
    rename_i openFlag fails results
    have on : Follows (learnMonitor replica name) (fun r g' => ∀ a, r = .ok a → g ≠ .owing ∨ m = name → g' ≠ .owing)
        (cluster.agreeOn replica m openFlag fails) g := by
      by_cases hm : m = name
      · subst hm
        obtain ⟨b, rfl⟩ := hopen rfl
        exact agreeOn_learns.mono fun _ _ h a ha _ => h a ha
      · by_cases hg : g = .owing
        · exact Follows.always (M := learnMonitor replica name) (I := fun _ => True) (fun _ _ _ => trivial)
            (fun _ _ _ _ _ _ => trivial) (fun _ _ _ _ _ h => (h.elim (absurd hg) hm).elim) trivial
        · exact ClusterBreakers.agreeOn_hands.follows (M := learnMonitor replica name) (I := fun g => g ≠ .owing)
            (fun _ _ _ _ => trivial) (fun _ _ _ _ hg he hn => next_ne_owing he hn hg) (fun _ _ h _ _ _ => h) hg
    refine on.bind (fun _ g' hon => (agree_learns h).mono fun r g'' hall a ha hg => ?_) fun _ _ _ _ ha => by cases ha
    refine hall a ha ?_
    rcases hg with hg | hmem
    · exact Or.inl (hon _ rfl (Or.inl hg))
    · rcases List.mem_cons.mp hmem with rfl | hmem
      · exact Or.inl (hon _ rfl (Or.inr rfl))
      · exact Or.inr hmem

theorem gets_learn {g : LearnPhase} : ∀ {keys : List String}, Follows (learnMonitor replica name)
    (fun r g' => g' = g ∧ match r with
      | .ok replies => Met name (keys.map .get) replies
      | .error x => x = Exn.cancelled) (pipeline (keys.map .get)) g
  | [] => ⟨rfl, .nil⟩
  | key :: keys => pipeline_cons_follows trivial fun first g' hn => by
    obtain ⟨hbulk, herr, rfl⟩ := hn
    have hgets := @gets_learn g' keys
    refine hgets.mono fun others g'' h => ?_
    obtain ⟨rfl, h⟩ := h
    refine ⟨rfl, ?_⟩
    cases first with
    | error x => exact herr x rfl
    | ok reply =>
      cases others with
      | error x => exact h
      | ok replies => exact .cons (fun hc => hbulk (by cases hc; rfl) reply rfl) h

theorem sync_learns {names : List String} (hname : name ∈ names) : Follows (learnMonitor replica name)
    (fun r g' => ∀ a, r = .ok a → g' ≠ .owing) (cluster.sync replica names) .idle := by
  refine Follows.op_iff.mpr ⟨trivial, fun now g hn => ?_⟩
  cases hn
  cases now with
  | error x => exact fun a ha => by cases ha
  | ok now =>
    refine Follows.op_iff.mpr ⟨trivial, fun syncedAt g hn => ?_⟩
    cases hn
    cases syncedAt with
    | error x => exact fun a ha => by cases ha
    | ok syncedAt =>
      show Follows _ _ (ite _ _ _) _
      split
      · exact fun _ _ hc => by cases hc
      · refine Follows.op_iff.mpr ⟨trivial, fun r g hn => ?_⟩
        cases r with
        | error x => exact fun a ha => by cases ha
        | ok _ =>
          have got : Follows (learnMonitor replica name) (fun (r : Except Exn (Except Exn (List (Redis.Reply Int)))) _ =>
              ∀ o, r = .ok o → ∃ replies, o = .ok replies ∧ Met name (ClusterBreakers.reads names) replies)
              (caught (pipeline (ClusterBreakers.reads names))) g := by
            rw [ClusterBreakers.reads_eq]
            refine follows_caught (gets_learn.mono fun r g' h => ?_)
            cases r with
            | ok replies => exact fun o ho => ⟨replies, (Except.ok.inj ho).symm, h.2⟩
            | error x =>
              obtain rfl := h.2
              exact fun o ho => by cases ho
          refine got.bind (Q := fun r g' => ∀ a, r = .ok a → g' ≠ LearnPhase.owing) (fun o g' h => ?_) fun _ _ _ _ ha => by cases ha
          obtain ⟨replies, rfl, hmet⟩ := h o rfl
          exact (agree_learns hmet).mono fun r g'' h a ha => h a ha (Or.inr hname)

/-- A covering sync that returns owes nothing. -/
def syncEnds (replica : Nat) (name : String) (c : Call) (r : Except Exn Result) (g : LearnPhase) : Prop :=
  ∀ names a, c = .sync replica names → name ∈ names → r = .ok a → g ≠ .owing

variable (cluster replica name) in
/-- Every call of the replicas is watched for the breaker of `name`. -/
def learnWatch : Watch (methods cluster) where
  G := LearnPhase
  monitor _ := learnMonitor replica name
  first _ := .idle
  last := syncEnds replica name

theorem learnWatch_sound : (learnWatch cluster replica name).Sound := by
  intro c
  show Follows (learnMonitor replica name) (syncEnds replica name c) (c.body cluster) LearnPhase.idle
  by_cases hc : ∃ names, c = .sync replica names ∧ name ∈ names
  · obtain ⟨names, rfl, hname⟩ := hc
    refine Follows.map ((sync_learns hname).mono fun r g h names' a _ _ ha => ?_)
    cases r with
    | ok u => exact h u rfl
    | error x => cases ha
  · exact Follows.always (M := learnMonitor replica name) (I := fun _ => True) (fun _ _ _ => trivial)
      (fun _ _ _ _ _ _ => trivial) (fun _ _ _ names _ hs hname _ => absurd ⟨names, hs, hname⟩ hc) trivial

/-! ### What one operation does -/

variable {s s' : Site} {e : Op} {g g' : LearnPhase} {choice : Choice} {r : Except Exn e.Reply}

/-- An operation on Redis returns a reply, raises a `RedisError`, or is cancelled. -/
theorem redis_answers {c : Cmd Int} {r : Except Exn (Redis.Reply Int)} (hex : exec (.redis c) choice s = some (r, s')) :
    r = .ok (Redis.exec s.time c s.store).1 ∨ r = .error .redisError ∨ r = .error .cancelled := by
  obtain ⟨-, -, hreply⟩ := @site_redis s c
  cases choice with
  | ok =>
    cases hex
    exact hreply.elim (fun h => Or.inl h.2) fun h => Or.inr (Or.inl h)
  | lost applied =>
    cases hex
    exact Or.inr (Or.inl rfl)
  | cancelled applied =>
    cases hex
    exact Or.inr (Or.inr rfl)
  | _ => cases hex

/-- Whatever a sync is answered while the key is there, it goes on. -/
theorem learn_next (hex : exec e choice s = some (r, s')) (hr : r ≠ .error .redisError) (hknown : name ∈ s.known replica)
    (hopen : ∃ b, value? s.time s.store (openKey name) = some (.str b)) : ∃ g', (learnMonitor replica name).next g e r g' := by
  cases e with
  | redis c =>
    cases c with
    | get key =>
      refine ⟨g, fun hkey reply hreply => ?_, fun x hx => ?_, rfl⟩
      · subst hkey hreply
        obtain ⟨b, hb⟩ := hopen
        rcases redis_answers hex with h | h | h
        · exact ⟨b, by rw [Except.ok.inj h, Redis.exec, hb]⟩
        · cases h
        · cases h
      · subst hx
        rcases redis_answers hex with h | h | h
        · cases h
        · exact absurd h hr
        · exact Except.error.inj h
    | _ => exact ⟨_, rfl⟩
  | known r' m =>
    refine ⟨g, fun h => ?_, rfl⟩
    obtain ⟨rfl, rfl⟩ := h
    cases choice with
    | ok =>
      cases hex
      exact congrArg Except.ok (decide_eq_true hknown)
    | _ => cases hex
  | breaker r' m method => cases method <;> exact ⟨_, rfl⟩
  | _ => exact ⟨_, rfl⟩

theorem exec_known {m : String} (hex : exec e choice s = some (r, s')) (h : m ∈ s.known replica) : m ∈ s'.known replica := by
  cases e with
  | redis c =>
    have hredis : ∀ {c : Cmd Int}, (s.redis c).2.known = s.known := fun {c} => by
      simp only [Site.redis, State.redis]
      split <;> rfl
    have hmem : m ∈ (s.redis c).2.known replica := hredis ▸ h
    cases choice with
    | ok =>
      cases hex
      exact hmem
    | lost applied =>
      cases hex
      split
      · exact hmem
      · exact h
    | cancelled applied =>
      cases hex
      split
      · exact hmem
      · exact h
    | _ => cases hex
  | create r' m' =>
    cases choice with
    | ok =>
      cases hex
      show m ∈ (s.toState.create r' m').known replica
      unfold State.create
      split
      · exact h
      · show m ∈ Function.update s.known r' (s.known r' ++ [m']) replica
        rw [Function.update_apply]
        split
        · rename_i hr
          exact List.mem_append_left _ (hr ▸ h)
        · exact h
    | _ => cases hex
  | _ => cases choice <;> cases hex <;> exact h

/-- A failure while the circuit is open leaves it open. -/
theorem recordFailure_opened {b : CircuitBreaker} {now stamp : ℚ} (hs : b.state = .opened) (hdue : b.due now = false) :
    (b.recordFailure now stamp).2.state = .opened := by
  have hrefresh : ({ b with consecutiveFailures := b.consecutiveFailures + 1 } : CircuitBreaker).refresh now =
      { b with consecutiveFailures := b.consecutiveFailures + 1 } := refresh_of_not_due hdue
  simp only [CircuitBreaker.recordFailure]
  rw [hrefresh]
  simp [hs]

/-- A breaker that is open stays open, unless a success is recorded or its `OPEN` is given up. -/
theorem opened_kept (hex : exec e choice s = some (r, s')) (hopened : (s.breakers replica name).state = .opened)
    (hsuccess : e ≠ .breaker replica name .recordSuccess)
    (hadopts : ∀ state n, e = .breaker replica name (.adopt state n) → state = .opened)
    (hdue : ∀ m, e = .breaker replica name m → (s.breakers replica name).due (s.clock replica) = false) :
    (s'.breakers replica name).state = .opened := by
  rcases @exec_breaker replica name _ _ _ _ _ hex with hb | ⟨m, rfl, hb⟩
  · rwa [hb]
  · rw [hb]
    have hnot := hdue m rfl
    cases m with
    | state =>
      simp only [CircuitBreaker.call, refresh_of_not_due hnot]
      exact hopened
    | allowRequest =>
      simp only [CircuitBreaker.call, allowRequest_taken (Or.inr hopened) hnot]
      exact hopened
    | adopt state n =>
      obtain rfl := hadopts state n rfl
      rfl
    | recordSuccess => exact absurd rfl hsuccess
    | recordFailure => exact recordFailure_opened hopened hnot

theorem AdoptedIn.cons {i : Nat} {events : List (methods cluster).Event} (h : AdoptedIn replica name i events)
    (v : (methods cluster).Event) : AdoptedIn replica name i (v :: events) := by
  obtain ⟨names, n, r, hmem⟩ := h
  exact ⟨names, n, r, List.mem_cons_of_mem v hmem⟩

/-- What the sync has done to the breaker, and what it still owes it. -/
structure Learning (replica : Nat) (name : String) (i : Nat) (names : List String) (s : Site)
    (events : List (methods cluster).Event) (Γ : (learnWatch cluster replica name).partly.Board) : Prop where
  known : name ∈ s.known replica
  opened : AdoptedIn replica name i events → (s.breakers replica name).state = .opened
  running : (∀ c r, Event.ended (S := methods cluster) i c r ∉ events) → ∃ g, Γ i = some (.sync replica names, some g) ∧
    (g = .paid → AdoptedIn replica name i events) ∧
    ((∃ now, Event.did (S := methods cluster) i (.sync replica names) (.stamp replica now) (.ok ()) ∈ events) → g ≠ .idle)
  ended : ∀ later during r, events = later ++ .ended i (.sync replica names) (.ok r) :: during →
    Effective replica names i during → AdoptedIn replica name i events

section
variable {i j : Nat} {names : List String} {events : List (methods cluster).Event}
  {Γ : (learnWatch cluster replica name).partly.Board} {c : Call} {o o' : Option LearnPhase}

/-- An event that is no end of a call. -/
theorem Learning.ended_cons {v : (methods cluster).Event} (h : Learning replica name i names s events Γ)
    (hv : ∀ c r, v ≠ .ended i c r) (later during : List (methods cluster).Event) (r : Result)
    (heq : v :: events = later ++ .ended i (.sync replica names) (.ok r) :: during)
    (heff : Effective replica names i during) : AdoptedIn replica name i (v :: events) := by
  cases later with
  | nil =>
    cases heq
    exact absurd rfl (hv _ _)
  | cons v' later =>
    obtain ⟨rfl, htail⟩ := List.cons.inj heq
    exact (h.ended later during r htail heff).cons v

theorem not_ended_of_cons {v : (methods cluster).Event}
    (h : ∀ c r, Event.ended (S := methods cluster) i c r ∉ v :: events) (c : Call) (r : Except Exn Result) :
    Event.ended (S := methods cluster) i c r ∉ events := fun hmem => h c r (List.mem_cons_of_mem v hmem)

/-- What an operation pays, it pays with an adoption. -/
theorem paid_adopts (hn : (learnMonitor replica name).next g e r .paid) (hne : g ≠ .paid) :
    ∃ n, e = .breaker replica name (.adopt .opened n) := by
  cases e with
  | breaker r' m method =>
    cases method with
    | adopt state n =>
      have hn : LearnPhase.paid = if r' = replica ∧ m = name ∧ state = .opened then .paid else g := hn
      split at hn
      · rename_i heq
        obtain ⟨rfl, rfl, rfl⟩ := heq
        exact ⟨n, rfl⟩
      · exact absurd hn.symm hne
    | _ => exact absurd (show LearnPhase.paid = g from hn).symm hne
  | redis cmd =>
    cases cmd with
    | get key => exact absurd hn.2.2.symm hne
    | _ => exact absurd (show LearnPhase.paid = g from hn).symm hne
  | known r' m => exact absurd hn.2.symm hne
  | stamp r' now => cases hn
  | _ => exact absurd (show LearnPhase.paid = g from hn).symm hne

theorem next_ne_idle (hn : (learnMonitor replica name).next g e r g') (hne : g ≠ .idle) : g' ≠ .idle := by
  cases e with
  | breaker r' m method =>
    cases method with
    | adopt state n =>
      have hn : g' = if r' = replica ∧ m = name ∧ state = .opened then .paid else g := hn
      split at hn
      · simp [hn]
      · rwa [hn]
    | _ => rwa [show g' = g from hn]
  | redis cmd =>
    cases cmd with
    | get key => rwa [hn.2.2]
    | _ => rwa [show g' = g from hn]
  | known r' m => rwa [hn.2]
  | stamp r' now => simp [show g' = .owing from hn]
  | _ => rwa [show g' = g from hn]

/-- One operation, with what it owes and what it pays. -/
theorem Learning.op (h : Learning replica name i names s events Γ) (hj : Γ j = some (c, o))
    (hn : (learnMonitor replica name).partly.next o e r o') (hex : exec e choice s = some (r, s'))
    (hsuccess : e ≠ .breaker replica name .recordSuccess)
    (hholds : AdoptedIn replica name i events →
      (∀ state n, e = .breaker replica name (.adopt state n) → state = .opened) ∧
      ∀ m, e = .breaker replica name m → (s.breakers replica name).due (s.clock replica) = false) :
    Learning replica name i names s' (.did j c e r :: events) (Function.update Γ j (some (c, o'))) := by
  refine ⟨exec_known hex h.known, ?_, fun hrunning => ?_, h.ended_cons fun _ _ hc => by cases hc⟩
  · rintro ⟨names', n, r', hmem⟩
    rcases List.mem_cons.mp hmem with heq | hmem
    · cases heq
      cases choice with
      | ok =>
        cases hex
        rw [ask_breaker, if_pos ⟨rfl, rfl⟩]
        rfl
      | _ => cases hex
    · have hadopted : AdoptedIn replica name i events := ⟨names', n, r', hmem⟩
      exact opened_kept hex (h.opened hadopted) hsuccess (hholds hadopted).1 (hholds hadopted).2
  · obtain ⟨g₀, hi, hpays, hstamped⟩ := h.running (not_ended_of_cons hrunning)
    by_cases hij : j = i
    · subst hij
      rw [hj] at hi
      cases hi
      obtain ⟨g', rfl, hn⟩ := hn
      refine ⟨g', Function.update_self .., fun hg => ?_, ?_⟩
      · by_cases hold : g₀ = .paid
        · exact (hpays hold).cons _
        · subst hg
          obtain ⟨n, rfl⟩ := paid_adopts hn hold
          exact ⟨names, n, r, List.mem_cons_self⟩
      · rintro ⟨now, hmem⟩
        rcases List.mem_cons.mp hmem with heq | hmem
        · cases heq
          rw [show g' = .owing from hn]
          exact fun hc => by cases hc
        · exact next_ne_idle hn (hstamped ⟨now, hmem⟩)
    · refine ⟨g₀, by rw [Function.update_of_ne (Ne.symm hij), hi], fun hg => (hpays hg).cons _, ?_⟩
      rintro ⟨now, hmem⟩
      rcases List.mem_cons.mp hmem with heq | hmem
      · cases heq
        exact absurd rfl hij
      · exact hstamped ⟨now, hmem⟩

theorem Learning.start (h : Learning replica name i names s events Γ) (hj : Γ j = none) :
    Learning replica name i names s (.start j c :: events) (Function.update Γ j (some (c, some .idle))) := by
  refine ⟨h.known, ?_, fun hrunning => ?_, h.ended_cons fun _ _ hc => by cases hc⟩
  · rintro ⟨names', n, r, hmem⟩
    rcases List.mem_cons.mp hmem with heq | hmem
    · cases heq
    · exact h.opened ⟨names', n, r, hmem⟩
  · obtain ⟨g, hi, hpays, hstamped⟩ := h.running (not_ended_of_cons hrunning)
    refine ⟨g, ?_, fun hg => (hpays hg).cons _, ?_⟩
    · rw [Function.update_of_ne (fun hc => by rw [hc, hj] at hi; cases hi), hi]
    · rintro ⟨now, hmem⟩
      rcases List.mem_cons.mp hmem with heq | hmem
      · cases heq
      · exact hstamped ⟨now, hmem⟩

theorem Learning.end (h : Learning replica name i names s events Γ) (hname : name ∈ names) (hj : Γ j = some (c, o))
    {r : Except Exn Result} (hlast : ∀ g, o = some g → syncEnds replica name c r g) :
    Learning replica name i names s (.ended j c r :: events) (Function.update Γ j none) := by
  refine ⟨h.known, ?_, fun hrunning => ?_, fun later during result heq heff => ?_⟩
  · rintro ⟨names', n, o, hmem⟩
    rcases List.mem_cons.mp hmem with heq | hmem
    · cases heq
    · exact h.opened ⟨names', n, o, hmem⟩
  · obtain ⟨g₀, hi, hpays, hstamped⟩ := h.running (not_ended_of_cons hrunning)
    have hij : i ≠ j := fun hc => hrunning c r (hc ▸ List.mem_cons_self)
    refine ⟨g₀, by rw [Function.update_of_ne hij, hi], fun hg => (hpays hg).cons _, ?_⟩
    rintro ⟨now, hmem⟩
    rcases List.mem_cons.mp hmem with heq | hmem
    · cases heq
    · exact hstamped ⟨now, hmem⟩
  · cases later with
    | nil =>
      cases heq
      obtain ⟨g₀, hi, hpays, hstamped⟩ := h.running heff.running
      rw [hj] at hi
      cases hi
      refine (hpays ?_).cons _
      have howing := hlast g₀ rfl names _ rfl hname rfl
      have hne := hstamped heff.stamped
      cases g₀ with
      | idle => exact absurd rfl hne
      | owing => exact absurd rfl howing
      | paid => rfl
    | cons v' later =>
      obtain ⟨rfl, htail⟩ := List.cons.inj heq
      exact (h.ended later during result htail heff).cons _

end

/-! ### Runs -/

theorem learning_rules (replica : Nat) (name : String) (i : Nat) (names : List String) (hname : name ∈ names)
    (w₂ : (methods cluster).World) : Rules (learnWatch cluster replica name).partly
      (fun w a => OpenExists name w ∧ Served w a ∧ ¬Performs w a (.breaker replica name .recordSuccess) ∧
        HoldsOpen replica name i w₂ w a)
      fun s tr Γ => ∃ events, tr = events ++ w₂.trace ∧ Learning replica name i names s events Γ where
  start := by
    rintro w Γ j c - ⟨events, htr, h⟩ hj - -
    exact ⟨.start j c :: events, by rw [htr]; rfl, h.start hj⟩
  op := by
    rintro w Γ j choice c g e r s - ⟨events, htr, h⟩ hj ⟨k, ht⟩ - hex ⟨hopen, hserved, hsuccess, hholds⟩
    have performs : Performs w (.op j choice) e := ⟨j, choice, c, k, rfl, ht⟩
    obtain ⟨o', hn⟩ : ∃ o', (learnMonitor replica name).partly.next g e r o' := by
      cases g with
      | none => exact ⟨none, rfl⟩
      | some g =>
        obtain ⟨g', hn⟩ := learn_next (g := g) hex (hserved j choice c e k r s rfl ht hex) h.known hopen
        exact ⟨some g', g', rfl, hn⟩
    refine ⟨o', hn, .did j c e r :: events, by rw [htr]; rfl,
      h.op hj hn hex (fun he => hsuccess (he ▸ performs)) fun hadopted => ?_⟩
    have hkeep := hholds ⟨events, htr, hadopted⟩
    exact ⟨fun state n he => hkeep.adopts state n (he ▸ performs), fun m he => hkeep.due m (he ▸ performs)⟩
  ended := by
    rintro s tr Γ j c g r ⟨events, htr, h⟩ hj hlast
    exact ⟨.ended j c r :: events, by rw [htr]; rfl, h.end hname hj hlast⟩
  kill := by
    rintro w Γ j c g - - - hm -
    cases hm
  env := by
    rintro w Γ b s - ⟨events, htr, h⟩ hb -
    refine ⟨events, htr, ?_, ?_, h.running, h.ended⟩
    · cases b with
      | time ms =>
        cases hb
        exact h.known
      | store store =>
        cases hb
        exact h.known
      | clock r q =>
        simp only [methods, env] at hb
        split at hb
        · cases hb
          exact h.known
        · cases hb
    · rw [env_breakers hb]
      exact h.opened

/-- Where the sync starts, nothing is known of the other calls. -/
theorem learning_start {replica : Nat} {name : String} {i : Nat} {names : List String} {start : Site}
    {w₁ w₂ : (methods cluster).World} (h : World.Reaches World.anyStep (quiet cluster start) w₁)
    (hstep : w₁.step (.start i (.sync replica names)) = some w₂) (hknown : name ∈ w₁.state.known replica) :
    ∃ Γ, (learnWatch cluster replica name).partly.Shows w₂ Γ ∧
      ∃ events, w₂.trace = events ++ w₂.trace ∧ Learning replica name i names w₂.state events Γ := by
  have hwaits : w₁.Waits := h.waits fun _ _ ht => nomatch ht
  rcases World.step_cases hstep with ⟨j, c, ha, ht, -, rfl⟩ | ⟨_, _, _, _, _, _, _, ha, _⟩ | ⟨_, _, _, ha, _⟩ | ⟨_, _, ha, _⟩
  · cases ha
    obtain ⟨k, hbody⟩ : ∃ k, (methods cluster).body (.sync replica names) = .op (.monotonic replica) k := ⟨_, rfl⟩
    have hsound : (learnWatch cluster replica name).Sound := learnWatch_sound
    have hfollows := hsound.partly (.sync replica names)
    rw [hbody] at hfollows ⊢
    have hshows := Watch.shows_unwatched (V := learnWatch cluster replica name) hwaits
    refine ⟨_, hshows.update (i := i) (t := some ⟨.sync replica names, .op (.monotonic replica) k⟩)
      (x := some (.sync replica names, some LearnPhase.idle)) ⟨⟨_, k, rfl⟩, some LearnPhase.idle, rfl, hfollows⟩ rfl, [], rfl, hknown, fun h => ?_, fun _ => ⟨.idle, Function.update_self .., nofun, fun h => ?_⟩,
      fun later during r heq => ?_⟩
    · obtain ⟨_, _, _, hmem⟩ := h
      cases hmem
    · obtain ⟨_, hmem⟩ := h
      cases hmem
    · cases later <;> cases heq
  · cases ha
  · cases ha
  · cases ha

theorem learns_open (cluster : ClusterBreakers) (start : Site) : LearnsOpen cluster HoldsOpen start := by
  intro replica name names i w₁ w₂ w₃ later during result h₁ hstep hname hknown hrun hopen htr heff
  obtain ⟨Γ, -, events, htr', h⟩ := (learning_rules replica name i names hname w₂).reaches learnWatch_sound.partly hrun
    (learning_start h₁ hstep hknown)
  rw [htr, List.append_cancel_right_eq] at htr'
  have hadopted := h.ended later during result htr'.symm heff
  refine ⟨h.opened hadopted, fun a hperforms hholds => ?_⟩
  have hkeep := hholds ⟨events, by rw [htr, htr'], hadopted⟩
  show ((w₃.state.breakers replica name).allowRequest (w₃.state.clock replica)).1 = false
  rw [allowRequest_taken (Or.inr (h.opened hadopted)) (hkeep.due _ hperforms)]

theorem opens_everywhere (hpositive : 1 ≤ cluster.failureThreshold) (start : Site) : OpensEverywhere cluster HoldsOpen start :=
  ⟨opens_on_failures hpositive start, learns_open cluster start⟩

end

/-! ### A sync that another one overtakes -/

namespace Overtaken

def shared : ClusterBreakers := { failureThreshold := 1, cooldownSeconds := 30 }

/-- Two replicas with closed breakers. -/
def start : Site where
  breakers := fun _ _ => { failureThreshold := 1, cooldownSeconds := 30, positive := Int.one_pos }
  known := fun _ => ["a", "b", "c"]

theorem threshold_positive : 1 ≤ shared.failureThreshold := by decide

def okay (i n : Nat) : List (methods shared).Act := List.replicate n (.op i .ok)

/-- The circuits of "b" and "c" are open, on replica 1 since 25 s, when their keys expire. Replica 1 reads the shared
    state, and is about to claim the probe of "b" when "a" fails on replica 0. -/
def before : List (methods shared).Act :=
  [.start 0 (.recordFailure 0 "b")] ++ okay 0 3 ++ [.start 0 (.recordFailure 0 "c")] ++ okay 0 3 ++
  [.env (.time 25000), .env (.clock 1 25), .start 1 (.sync 1 ["b", "c"])] ++ okay 1 13 ++
  [.env (.time 5000), .env (.clock 1 5), .start 2 (.sync 1 ["b", "a"])] ++ okay 2 9 ++
  [.start 0 (.recordFailure 0 "a")] ++ okay 0 3 ++ [.env (.time 2000), .env (.clock 1 2)]

/-- The next sync of replica 1 has its breaker adopt `OPEN`, and claims the probe of "c". Meanwhile the sync before it
    goes on with what it has read, and claims the probe of "a". -/
def during : List (methods shared).Act := okay 3 12 ++ okay 2 6 ++ okay 3 2 ++ [.start 4 (.allowRequest 1 "a")]

/-- The reply carries a deadline. -/
def isOpen : Option (Value Int) → Bool
  | some (.str _) => true
  | _ => false

/-- The operation that the thread takes is not refused by Redis. -/
def answered : Option (methods shared).Thread → (methods shared).Act → Site → Bool
  | some ⟨_, .op e _⟩, .op _ choice, s =>
    match exec e choice s with
    | some (.error .redisError, _) => false
    | _ => true
  | _, _, _ => true

/-- The thread that an action lets run. -/
def thread (w : (methods shared).World) : (methods shared).Act → Option (methods shared).Thread
  | .op i _ => w.threads i
  | _ => none

/-- The second replica reports a success of `a`. -/
def success : Option Op → Bool
  | some (.breaker 1 "a" .recordSuccess) => true
  | _ => false

/-- The circuit is open in Redis, Redis answers, and `a` has no success here. -/
def checked (w : (methods shared).World) (a : (methods shared).Act) : Bool :=
  isOpen (value? w.state.time w.state.store (openKey "a")) && answered (thread w a) a w.state && !success (w.opOf a)

theorem of_isOpen {w : (methods shared).World} (h : isOpen (value? w.state.time w.state.store (openKey "a")) = true) :
    OpenExists "a" w := by
  unfold isOpen at h
  split at h
  · rename_i b hb
    exact ⟨b, hb⟩
  · cases h

theorem of_checked {w : (methods shared).World} {a : (methods shared).Act} (h : checked w a = true) :
    OpenExists "a" w ∧ Served w a ∧ ¬Performs w a (.breaker 1 "a" .recordSuccess) := by
  unfold checked at h
  rw [Bool.and_eq_true, Bool.and_eq_true] at h
  refine ⟨of_isOpen h.1.1, ?_, fun hp => by simp [hp.opOf, success] at h⟩
  rintro i choice c e k r s rfl ht hex rfl
  have hanswered := h.1.2
  rw [show thread w (.op i choice) = some ⟨c, .op e k⟩ from ht] at hanswered
  simp only [answered, hex] at hanswered
  cases hanswered

/-- The sync of the second replica begins. -/
def isStamp : (methods shared).Event → Bool
  | .did 3 (.sync 1 ["a", "c"]) (.stamp 1 _) (.ok ()) => true
  | _ => false

/-- It has ended. -/
def isEnd : (methods shared).Event → Bool
  | .ended 3 _ _ => true
  | _ => false

/-- Call 3 has been effective, and has ended just before the last event. -/
def overtaken : List (methods shared).Event → Bool
  | _ :: .ended 3 (.sync 1 ["a", "c"]) (.ok _) :: during => during.any isStamp && !during.any isEnd
  | _ => false

theorem of_overtaken {events : List (methods shared).Event} (h : overtaken events = true) : ∃ later during result,
    events = later ++ .ended 3 (.sync 1 ["a", "c"]) (.ok result) :: during ∧ Effective 1 ["a", "c"] 3 during := by
  unfold overtaken at h
  split at h
  · rename_i v result during
    rw [Bool.and_eq_true, List.any_eq_true] at h
    obtain ⟨⟨stamp, hmem, hstamp⟩, hend⟩ := h
    refine ⟨[v], during, result, rfl, ?_, fun c r hc => ?_⟩
    · unfold isStamp at hstamp
      split at hstamp
      · rename_i now
        exact ⟨now, hmem⟩
      · cases hstamp
    · rw [List.any_eq_true.mpr ⟨_, hc, rfl⟩] at hend
      cases hend
  · cases h

/-- The failure has been shared, and the sync of `c` is reading. -/
def reading : Option (methods shared).World := (quiet shared start).run before

/-- The sync of both names has been called. -/
def begun : Option (methods shared).World := reading.bind fun w => w.step (.start 3 (.sync 1 ["a", "c"]))

theorem covered : reading.any (fun w => decide ("a" ∈ w.state.known 1)) = true := by decide +kernel

/-- At the end of the sync that has read `OPEN` the circuit of "a" is half-open, though its key is there. -/
theorem overtakes : begun.any (fun w₂ => (w₂.runIf checked during).any fun w₃ =>
    overtaken (w₃.trace.take (w₃.trace.length - w₂.trace.length)) &&
      isOpen (value? w₃.state.time w₃.state.store (openKey "a")) &&
      decide ((w₃.state.breakers 1 "a").state = .halfOpen)) = true := by
  decide +kernel

/-- Replica 1 does not learn that the circuit of "a" is open. -/
theorem not_opensEverywhere : ¬OpensEverywhere shared (fun _ _ _ _ => World.anyStep) start := by
  rintro ⟨-, h⟩
  obtain ⟨w₂, h₂, hrun⟩ := (Option.any_eq_true _ _).mp overtakes
  obtain ⟨w₃, h₃, hcheck⟩ := (Option.any_eq_true _ _).mp hrun
  obtain ⟨w₁, h₁, hstep⟩ := Option.bind_eq_some_iff.mp h₂
  have hknown := covered
  rw [h₁, Option.any_some, decide_eq_true_eq] at hknown
  rw [Bool.and_eq_true, Bool.and_eq_true, decide_eq_true_eq] at hcheck
  have hreaches : World.Reaches (fun w a => OpenExists "a" w ∧ Served w a ∧ ¬Performs w a (.breaker 1 "a" .recordSuccess) ∧
      World.anyStep w a) w₂ w₃ :=
    World.reaches_of_runIf (fun w a hc => ⟨(of_checked hc).1, (of_checked hc).2.1, (of_checked hc).2.2, trivial⟩) h₃
  obtain ⟨events, htr⟩ := hreaches.trace
  have hevents : w₃.trace.take (w₃.trace.length - w₂.trace.length) = events := by
    rw [htr, List.length_append, Nat.add_sub_cancel, List.take_left]
  rw [hevents] at hcheck
  obtain ⟨later, during', result, rfl, heff⟩ := of_overtaken hcheck.1.1
  have hopened := (h 1 "a" ["a", "c"] 3 w₁ w₂ w₃ later during' result (World.reaches_of_run (fun _ _ _ => trivial) h₁)
    hstep (by decide) hknown hreaches (of_isOpen hcheck.1.2) htr heff).1
  rw [hcheck.2] at hopened
  cases hopened

/-! ### A sync that none overtakes -/

/-- "a" fails on replica 0, and no sync is under way when one of replica 1 begins. -/
def opening : List (methods shared).Act :=
  [.start 0 (.recordFailure 0 "a")] ++ okay 0 3 ++ [.env (.time 2000), .env (.clock 1 2)]

/-- The sync, the next one of the replica after that, and a request. -/
def following : List (methods shared).Act :=
  okay 3 12 ++ [.env (.time 5000), .env (.clock 1 5), .start 5 (.sync 1 ["a"])] ++ okay 5 8 ++ [.start 4 (.allowRequest 1 "a")]

/-- A method of the breaker finds its own timer not up, and no state but `OPEN` is adopted. -/
def keepsOpen (w : (methods shared).World) (a : (methods shared).Act) : Bool :=
  match w.opOf a with
  | some (.breaker replica name m) => !decide (replica = 1 ∧ name = "a") || (!(w.state.breakers 1 "a").due (w.state.clock 1) &&
      match m with
      | .adopt state _ => decide (state = .opened)
      | _ => true)
  | _ => true

theorem unreleased_of_keepsOpen {w : (methods shared).World} {a : (methods shared).Act} (h : keepsOpen w a = true) :
    Unreleased 1 "a" w a := by
  refine ⟨fun state n hp => ?_, fun m hp => ?_⟩
  · simp [keepsOpen, hp.opOf] at h
    exact h.2
  · simp [keepsOpen, hp.opOf] at h
    exact h.1

/-- Call 3 has been effective, and has ended. -/
def learned (events : List (methods shared).Event) : Bool :=
  match events.dropWhile fun v => !isEnd v with
  | .ended 3 (.sync 1 ["a", "c"]) (.ok _) :: during => during.any isStamp && !during.any isEnd
  | _ => false

/-- The sync has been called, with the circuit open. -/
def asked : Option (methods shared).World :=
  ((quiet shared start).run opening).bind fun w => w.step (.start 3 (.sync 1 ["a", "c"]))

theorem of_learned {events : List (methods shared).Event} (h : learned events = true) : ∃ later during result,
    events = later ++ .ended 3 (.sync 1 ["a", "c"]) (.ok result) :: during ∧ Effective 1 ["a", "c"] 3 during := by
  have hsplit := @List.takeWhile_append_dropWhile _ (fun v => !isEnd v) events
  unfold learned at h
  split at h
  · rename_i result during hdrop
    rw [Bool.and_eq_true, List.any_eq_true] at h
    obtain ⟨⟨stamp, hmem, hstamp⟩, hend⟩ := h
    refine ⟨_, during, result, by rw [← hdrop, hsplit], ?_, fun c r hc => ?_⟩
    · unfold isStamp at hstamp
      split at hstamp
      · rename_i now
        exact ⟨now, hmem⟩
      · cases hstamp
    · rw [List.any_eq_true.mpr ⟨_, hc, rfl⟩] at hend
      cases hend
  · cases h

theorem covered_here : ((quiet shared start).run opening).any (fun w => decide ("a" ∈ w.state.known 1)) = true := by
  decide +kernel

theorem refuses : asked.any (fun w₂ => (w₂.runIf (fun w a => checked w a && keepsOpen w a) following).any fun w₃ =>
    learned (w₃.trace.take (w₃.trace.length - w₂.trace.length)) &&
      isOpen (value? w₃.state.time w₃.state.store (openKey "a")) &&
      asking 1 "a" (w₃.opOf (.op 4 .ok)) && keepsOpen w₃ (.op 4 .ok)) = true := by
  decide +kernel

/-- While the syncs of replica 1 have its breaker adopt nothing but `OPEN`, the request after them is refused. -/
theorem opens_here : OpensEverywhere shared HoldsOpen start ∧ ∃ w₂ w₃, asked = some w₂ ∧
    World.Reaches (fun w a => OpenExists "a" w ∧ Served w a ∧ ¬Performs w a (.breaker 1 "a" .recordSuccess) ∧
      HoldsOpen 1 "a" 3 w₂ w a) w₂ w₃ ∧
    Performs w₃ (.op 4 .ok) (.breaker 1 "a" .allowRequest) ∧ (w₃.state.breakers 1 "a").state = .opened ∧
    allows w₃.state 1 "a" = false := by
  have hopens := opens_everywhere threshold_positive start
  obtain ⟨w₂, h₂, hrun⟩ := (Option.any_eq_true _ _).mp refuses
  obtain ⟨w₃, h₃, hcheck⟩ := (Option.any_eq_true _ _).mp hrun
  obtain ⟨w₁, h₁, hstep⟩ := Option.bind_eq_some_iff.mp h₂
  have hknown := covered_here
  rw [h₁, Option.any_some, decide_eq_true_eq] at hknown
  simp only [Bool.and_eq_true] at hcheck
  obtain ⟨⟨⟨hlearned, hopen⟩, hasking⟩, hkeeps⟩ := hcheck
  have hreaches : World.Reaches (fun w a => OpenExists "a" w ∧ Served w a ∧ ¬Performs w a (.breaker 1 "a" .recordSuccess) ∧
      HoldsOpen 1 "a" 3 w₂ w a) w₂ w₃ := by
    refine World.reaches_of_runIf (fun w a hc => ?_) h₃
    rw [Bool.and_eq_true] at hc
    obtain ⟨hexists, hserved, hsuccess⟩ := of_checked hc.1
    exact ⟨hexists, hserved, hsuccess, fun _ => unreleased_of_keepsOpen hc.2⟩
  obtain ⟨events, htr⟩ := hreaches.trace
  have hevents : w₃.trace.take (w₃.trace.length - w₂.trace.length) = events := by
    rw [htr, List.length_append, Nat.add_sub_cancel, List.take_left]
  rw [hevents] at hlearned
  obtain ⟨later, during, result, rfl, heff⟩ := of_learned hlearned
  obtain ⟨hopened, hrefused⟩ := hopens.2 1 "a" ["a", "c"] 3 w₁ w₂ w₃ later during result
    (World.reaches_of_run (fun _ _ _ => trivial) h₁) hstep List.mem_cons_self hknown hreaches (of_isOpen hopen) htr heff
  have hperforms := performs_of_asking hasking
  exact ⟨hopens, w₂, w₃, h₂, hreaches, hperforms, hopened, hrefused _ hperforms fun _ => unreleased_of_keepsOpen hkeeps⟩

end Overtaken

end NexusGate.Gateway.Router
