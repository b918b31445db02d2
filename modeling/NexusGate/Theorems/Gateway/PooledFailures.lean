import NexusGate.Theorems.Gateway.Freshness
import NexusGate.Theorems.Gateway.ProbeClaim

/-! # Pooled failures open the circuit

Calls that record failures of one deployment, on any replicas and interleaved command by command. As long as
the `OPEN` key is not there, every call that has returned has been answered a count below the threshold, and no
two of them the same one. -/

namespace NexusGate.Gateway.Router
open Async Redis System

section
variable {cluster : ClusterBreakers}

/-! ### What may happen meanwhile -/

/-- Redis answers no command with an error. -/
def Served (w : (methods cluster).World) (a : (methods cluster).Act) : Prop :=
  ∀ i choice c e k r s, a = .op i choice → w.threads i = some ⟨c, .op e k⟩ → exec e choice w.state = some (r, s) →
    r ≠ .error .redisError

/-- Every command reaches Redis, also one whose caller is cancelled meanwhile. -/
def Delivered (_w : (methods cluster).World) (a : (methods cluster).Act) : Prop := ∀ i, a ≠ .op i (.cancelled false)

/-- Neither shared key of the deployment expires, and nothing but the calls writes them. -/
def KeysStay (name : String) (w : (methods cluster).World) (a : (methods cluster).Act) : Prop :=
  ∀ b s, a = .env b → env b w.state = some s → ∀ key ∈ [failsKey name, openKey name],
    live? s.time s.store key = live? w.state.time w.state.store key

/-- Redis answers, the replies arrive, the keys of the name stay and no success of it is reported. -/
structure Undisturbed (name : String) (w : (methods cluster).World) (a : (methods cluster).Act) : Prop where
  served : Served w a
  delivered : Delivered w a
  keys : KeysStay name w a
  noSuccess : ∀ i replica, a ≠ .start i (.recordSuccess replica name)

/-- No outcome of the deployment is being recorded. -/
def NoneUnderWay (name : String) (w : (methods cluster).World) : Prop :=
  ∀ i t replica, w.threads i = some t → t.call ≠ .recordFailure replica name ∧ t.call ≠ .recordSuccess replica name

/-- The failures that are counted so far. -/
def Counted (name : String) (s : Site) (n : Int) : Prop :=
  value? s.time s.store (failsKey name) = some (.str n) ∨ (value? s.time s.store (failsKey name) = none ∧ n = 0)

/-- The call that has recorded a failure, when it returns. -/
def returned (name : String) : (methods cluster).Event → Option Nat
  | .ended i (.recordFailure _ m) (.ok _) => if m = name then some i else none
  | _ => none

/-- The calls that have recorded a failure of the deployment. -/
def recorded (name : String) (events : List (methods cluster).Event) : List Nat := events.filterMap (returned name)

/-- The call that is answered a count below the threshold. -/
def belowThreshold (name : String) : (methods cluster).Event → Option Nat
  | .did i _ (.redis (.incr key)) (.ok (.int n)) =>
    if key = failsKey name ∧ n < cluster.failureThreshold then some i else none
  | _ => none

/-- The failures that a run has counted below the threshold. -/
def below (name : String) (events : List (methods cluster).Event) : List Nat := events.filterMap (belowThreshold name)

end

/-- Once as many failures of a deployment have been recorded as the threshold says, its `OPEN` key is there. -/
def OpensOnFailures (cluster : ClusterBreakers) (start : Site) : Prop :=
  ∀ name w₀ w n events, World.Reaches World.anyStep (quiet cluster start) w₀ → NoneUnderWay name w₀ →
    Counted name w₀.state n → 0 ≤ n → World.Reaches (Undisturbed name) w₀ w → w.trace = events ++ w₀.trace →
    cluster.failureThreshold ≤ (recorded name events).length →
    live? w.state.time w.state.store (openKey name) ≠ none

/-! ### What the calls do -/

/-- Where a call that records a failure stands: it has been answered a count below the threshold, or another one,
    or it has published the opening. -/
inductive FailPhase
  | idle
  | low
  | high
  | sent
  deriving DecidableEq

/-- What `record_failure` does to the shared keys of its own breaker. -/
def failMonitor (cluster : ClusterBreakers) (name : String) : Monitor Op Op.Reply Exn FailPhase where
  may g e := match e with
    | .breaker _ _ _ => True
    | .redis (.incr key) => key = failsKey name ∧ g = .idle
    | .redis (.expire key n) => key = failsKey name ∧ 0 < n
    | .redis (.set key _ ex nx) => key = openKey name ∧ nx = false ∧ ∃ n, ex = some n ∧ 0 < n
    | .redis (.del keys) => keys = [failsKey name, probeKey name] ∧ g = .sent
    | _ => False
  next g e r g' := match e, r with
    | .redis (.incr _), .ok reply => ∃ n, reply = .int n ∧ g' = if n < cluster.failureThreshold then .low else .high
    | .redis (.incr _), .error x => x = .cancelled ∧ g' = .high
    | .redis (.set _ _ _ _), .ok _ => g' = .sent
    | .redis (.set _ _ _ _), .error x => x = .cancelled ∧ g' = .sent
    | .redis _, .error x => x = .cancelled ∧ g' = g
    | _, _ => g' = g

/-- Operations that write neither shared key of the deployment. -/
def Op.sparesShared (name : String) : Op → Prop
  | .redis c => failsKey name ∉ c.writes ∧ openKey name ∉ c.writes
  | _ => True

/-- The call leaves the shared keys of the name alone. -/
def sparesMonitor (name : String) : Monitor Op Op.Reply Exn FailPhase where
  may _ e := e.sparesShared name
  next _ _ _ g' := g' = .idle

/-- Nothing is asked of the call. -/
def freeMonitor : Monitor Op Op.Reply Exn FailPhase where
  may _ _ := True
  next _ _ _ g' := g' = .idle

/-- What is asked of each of the three methods. -/
def callMonitor (cluster : ClusterBreakers) (name : String) : Call → Monitor Op Op.Reply Exn FailPhase
  | .recordFailure _ m => if m = name then failMonitor cluster name else sparesMonitor name
  | .recordSuccess _ m => if m = name then freeMonitor else sparesMonitor name
  | _ => sparesMonitor name

/-- A call that returns, having recorded a failure, has been answered a low count or has published the opening. -/
def callEnds (name : String) (c : Call) (r : Except Exn Result) (g : FailPhase) : Prop :=
  ∀ replica a, c = .recordFailure replica name → r = .ok a → g = .low ∨ g = .sent

/-- Every call is watched for the shared keys of the name. -/
def failWatch (cluster : ClusterBreakers) (name : String) : Watch (methods cluster) where
  G := FailPhase
  monitor := callMonitor cluster name
  first _ := .idle
  last := callEnds name

section
variable {cluster : ClusterBreakers} {replica : Nat} {name m : String}

/-- What a pipeline does, command by command. -/
theorem pipeline_cons_follows {G : Type} {M : Monitor Op Op.Reply Exn G}
    {Q : Except Exn (List (Redis.Reply Int)) → G → Prop} {c : Cmd Int} {cs : List (Cmd Int)} {g : G}
    (hmay : M.may g (.redis c)) (h : ∀ first g', M.next g (.redis c) first g' →
      Follows M (fun others g'' => Q (do let reply ← first; let replies ← others; pure (reply :: replies)) g'')
        (pipeline cs) g') : Follows M Q (pipeline (c :: cs)) g := by
  refine Follows.bind_iff.mpr (Follows.attempt_iff.mpr (Follows.call_iff.mpr ⟨hmay, fun first g' hn => ?_⟩))
  refine Follows.bind_iff.mpr (Follows.attempt_iff.mpr ((h first g' hn).mono fun others g'' hq => ?_))
  cases first with
  | error x => exact hq
  | ok reply => cases others <;> exact hq

theorem publishOpen_follows {g : FailPhase} :
    Follows (failMonitor cluster name) (fun _ g' => g' = .sent) (cluster.publishOpen name) g := by
  refine Follows.bind (P := fun _ g' => g' = FailPhase.sent) (follows_caught ?_) (fun _ _ h => h) fun _ _ h => h
  refine Follows.mono (Q := fun _ g' => g' = .sent) (fun r g' h => ?_)
    (pipeline_cons_follows ⟨rfl, rfl, _, rfl, wholeSeconds_pos⟩ fun first g' hn => ?_)
  · subst h
    cases r with
    | ok a => rfl
    | error x =>
      show ite _ _ _
      split <;> rfl
  · have hg : g' = .sent := by
      cases first with
      | ok reply => exact hn
      | error x => exact hn.2
    subst hg
    refine pipeline_cons_follows ⟨rfl, rfl⟩ fun second g'' hn => ?_
    cases second with
    | ok reply => exact hn
    | error x => exact hn.2

/-- What is known once the count has been asked for. -/
def CountKnown (cluster : ClusterBreakers) : Except Exn (List (Redis.Reply Int)) → FailPhase → Prop
  | .ok replies, g => ∃ n rest, replies = .int n :: rest ∧ g = if n < cluster.failureThreshold then .low else .high
  | .error x, _ => x = .cancelled

theorem count_follows : Follows (failMonitor cluster name) (CountKnown cluster)
    (pipeline [.incr (failsKey name), .expire (failsKey name) (wholeSeconds cluster.failureWindowSeconds)]) .idle := by
  refine pipeline_cons_follows ⟨rfl, rfl⟩ fun first g hn => pipeline_cons_follows ⟨rfl, wholeSeconds_pos⟩ fun second g' hn' => ?_
  cases first with
  | error x => exact hn.1
  | ok reply =>
    cases second with
    | error x => exact hn'.1
    | ok reply' =>
      obtain ⟨n, rfl, rfl⟩ := hn
      exact ⟨n, [reply'], rfl, hn'⟩

theorem recordFailure_follows : Follows (failMonitor cluster name)
    (fun r g' => ∀ a, r = .ok a → g' = .low ∨ g' = .sent) (cluster.recordFailure replica name) .idle := by
  refine Follows.op_iff.mpr ⟨trivial, fun r g hn => ?_⟩
  cases hn
  cases r with
  | error x => exact fun a ha => by cases ha
  | ok opened =>
    cases opened with
    | true => exact publishOpen_follows.bind (fun _ _ h _ _ => Or.inr h) fun _ _ _ _ ha => by cases ha
    | false =>
      have counted : Follows (failMonitor cluster name) (fun r g' => match (r : Except Exn (Except Exn (List (Redis.Reply Int)))) with
          | .ok o => CountKnown cluster o g' ∧ ∃ replies, o = .ok replies
          | .error _ => True) (caught (pipeline [.incr (failsKey name),
            .expire (failsKey name) (wholeSeconds cluster.failureWindowSeconds)])) .idle :=
        follows_caught (count_follows.mono fun r g' h => by
          cases r with
          | ok replies => exact ⟨h, replies, rfl⟩
          | error x =>
            cases h
            trivial)
      refine counted.bind (fun o g' h => ?_) fun _ _ _ _ ha => by cases ha
      obtain ⟨h, replies, rfl⟩ := h
      obtain ⟨n, rest, rfl, rfl⟩ := h
      show Follows _ _ (ite _ _ _) _
      by_cases hn : n < cluster.failureThreshold
      · rw [if_neg (not_le.mpr hn), if_pos hn]
        exact fun _ _ => Or.inl rfl
      · rw [if_pos (not_lt.mp hn)]
        refine publishOpen_follows.bind (fun _ g'' h => ?_) fun _ _ _ _ ha => by cases ha
        cases h
        refine Follows.op_iff.mpr ⟨trivial, fun r g'' hn => ?_⟩
        cases hn
        cases r with
        | error x => exact fun a ha => by cases ha
        | ok _ => exact fun _ _ => Or.inr rfl

theorem publishOpen_spares (hm : m ≠ name) : Hands (Op.sparesShared name) (cluster.publishOpen m) :=
  (hands_caught (pipeline_hands (by
    simp [Op.sparesShared, Cmd.writes, failsKey_inj, openKey_inj, Ne.symm hm, failsKey_ne_openKey, failsKey_ne_probeKey,
      openKey_ne_probeKey, failsKey_ne_openKey.symm]))).bind fun _ => trivial

theorem recordFailure_spares (hm : m ≠ name) : Hands (Op.sparesShared name) (cluster.recordFailure replica m) := by
  refine (Hands.call trivial).bind fun opened => ?_
  cases opened with
  | true => exact (publishOpen_spares hm).bind fun _ => trivial
  | false =>
    refine (hands_caught (pipeline_hands (by
      simp [Op.sparesShared, Cmd.writes, failsKey_inj, Ne.symm hm, failsKey_ne_openKey.symm]))).bind fun o => ?_
    split
    · rename_i count _
      have adopt : Hands (Op.sparesShared name) (breaker replica m (.adopt .opened count)) := Hands.call trivial
      show Hands _ (ite _ _ _)
      split
      · exact (publishOpen_spares hm).bind fun _ => adopt.bind fun _ => trivial
      · trivial
    · trivial

theorem recordSuccess_spares (hm : m ≠ name) : Hands (Op.sparesShared name) (cluster.recordSuccess replica m) :=
  (Hands.call trivial).bind fun _ => (hands_caught (Hands.call (by
    simp [Op.sparesShared, Cmd.writes, failsKey_inj, openKey_inj, Ne.symm hm, failsKey_ne_openKey, failsKey_ne_probeKey,
      openKey_ne_probeKey, failsKey_ne_openKey.symm]))).bind fun _ => trivial

theorem sparesShared_of_inSync {e : Op} (he : e.inSync) : e.sparesShared name := by
  cases e with
  | redis c =>
    cases c with
    | get key => exact ⟨List.not_mem_nil, List.not_mem_nil⟩
    | set key v ex nx =>
      obtain ⟨m, rfl⟩ := he
      exact ⟨fun h => failsKey_ne_probeKey (List.mem_singleton.mp h),
        fun h => openKey_ne_probeKey (List.mem_singleton.mp h)⟩
    | _ => cases he
  | _ => trivial

theorem callMonitor_failure : callMonitor cluster name (.recordFailure replica name) = failMonitor cluster name := if_pos rfl

/-- Calls that are not about the deployment leave its keys alone. -/
theorem callMonitor_spares {c : Call} (hf : ∀ r, c ≠ .recordFailure r name) (hs : ∀ r, c ≠ .recordSuccess r name) :
    callMonitor cluster name c = sparesMonitor name := by
  cases c with
  | recordFailure r m => exact if_neg fun h => hf r (by rw [h])
  | recordSuccess r m => exact if_neg fun h => hs r (by rw [h])
  | _ => rfl

theorem body_spares {c : Call} (hf : ∀ r, c ≠ .recordFailure r name) (hs : ∀ r, c ≠ .recordSuccess r name) :
    Hands (Op.sparesShared name) (c.body cluster) := by
  cases c with
  | sync r names =>
    exact (ClusterBreakers.sync_hands.mono fun _ => sparesShared_of_inSync).bind fun _ => trivial
  | recordFailure r m => exact (recordFailure_spares fun h => hf r (by rw [h])).bind fun _ => trivial
  | recordSuccess r m =>
    have h : Hands (Op.sparesShared name) (cluster.recordSuccess r m) := recordSuccess_spares fun h => hs r (by rw [h])
    exact h.bind fun _ => trivial
  | allowRequest r m => exact (Hands.call trivial).bind fun _ => trivial
  | state r m => exact (Hands.call trivial).bind fun _ => trivial

theorem failWatch_sound : (failWatch cluster name).Sound := by
  intro c
  show Follows (callMonitor cluster name c) (callEnds name c) (c.body cluster) FailPhase.idle
  by_cases hf : ∃ r, c = .recordFailure r name
  · obtain ⟨r, rfl⟩ := hf
    rw [callMonitor_failure]
    refine Follows.map (recordFailure_follows.mono fun o g h => ?_)
    rintro replica a - ho
    cases o with
    | ok b => exact h b rfl
    | error x => cases ho
  · by_cases hs : ∃ r, c = .recordSuccess r name
    · obtain ⟨r, rfl⟩ := hs
      rw [show callMonitor cluster name (.recordSuccess r name) = freeMonitor from if_pos rfl]
      exact Follows.always (M := freeMonitor) (I := fun _ => True) (fun _ _ _ => trivial) (fun _ _ _ _ _ _ => trivial)
        (fun _ _ _ _ _ hc => nomatch hc) trivial
    · have hf := not_exists.mp hf
      have hs := not_exists.mp hs
      rw [callMonitor_spares hf hs]
      exact (body_spares hf hs).follows (M := sparesMonitor name) (I := fun _ => True) (fun _ _ _ he => he)
        (fun _ _ _ _ _ _ _ => trivial) (fun _ _ _ r _ hc => absurd hc (hf r)) trivial

/-! ### What one operation does to the two keys -/

variable {s s' : Site} {e : Op} {g g' : FailPhase} {choice : Choice} {r : Except Exn e.Reply}

theorem site_redis {c : Cmd Int} : (s.redis c).2.time = s.time ∧ (s.redis c).2.store = (Redis.exec s.time c s.store).2 ∧
    (((Redis.exec s.time c s.store).1 ≠ .error ∧ (s.redis c).1 = .ok (Redis.exec s.time c s.store).1) ∨
      (s.redis c).1 = .error .redisError) := by
  simp only [Site.redis, State.redis]
  cases hx : Redis.exec s.time c s.store with
  | mk reply store => cases reply <;> simp

/-- A command that reaches Redis is carried out. -/
theorem carried {c : Cmd Int} {r : Except Exn (Redis.Reply Int)} (hex : exec (.redis c) choice s = some (r, s'))
    (hchoice : choice ≠ .cancelled false) (hr : r ≠ .error .redisError) :
    s'.time = s.time ∧ s'.store = (Redis.exec s.time c s.store).2 ∧
      (((Redis.exec s.time c s.store).1 ≠ .error ∧ r = .ok (Redis.exec s.time c s.store).1) ∨ r = .error .cancelled) := by
  obtain ⟨htime, hstore, hreply⟩ := @site_redis s c
  cases choice with
  | ok =>
    cases hex
    exact ⟨htime, hstore, Or.inl (hreply.resolve_right hr)⟩
  | lost applied =>
    cases hex
    exact absurd rfl hr
  | cancelled applied =>
    cases applied with
    | false => exact absurd rfl hchoice
    | true =>
      cases hex
      exact ⟨htime, hstore, Or.inr rfl⟩
  | _ => cases hex

/-- What is not a command leaves Redis alone. -/
theorem exec_apart (hex : exec e choice s = some (r, s')) (he : ∀ c, e ≠ .redis c) :
    s'.time = s.time ∧ s'.store = s.store := by
  cases e with
  | redis c => exact absurd rfl (he c)
  | create r' n =>
    cases choice with
    | ok =>
      cases hex
      simp only [State.create]
      split <;> exact ⟨rfl, rfl⟩
    | _ => cases hex
  | _ => cases choice <;> cases hex <;> exact ⟨rfl, rfl⟩

/-- A call keeps the `OPEN` key, or sets it. -/
theorem open_writes (hmay : (failMonitor cluster name).may g e) :
    (∃ v n, e = .redis (.set (openKey name) v (some n) false) ∧ 0 < n) ∨
      ∀ c, e = .redis c → openKey name ∉ c.writes := by
  cases e with
  | redis c =>
    cases c with
    | set key v ex nx =>
      obtain ⟨rfl, rfl, n, rfl, hn⟩ := hmay
      exact Or.inl ⟨v, n, rfl, hn⟩
    | incr key =>
      obtain ⟨rfl, -⟩ := hmay
      exact Or.inr fun c hc => by cases hc; simp [Cmd.writes, failsKey_ne_openKey.symm]
    | expire key n =>
      obtain ⟨rfl, -⟩ := hmay
      exact Or.inr fun c hc => by cases hc; simp [Cmd.writes, failsKey_ne_openKey.symm]
    | del keys =>
      obtain ⟨rfl, -⟩ := hmay
      exact Or.inr fun c hc => by cases hc; simp [Cmd.writes, failsKey_ne_openKey.symm, openKey_ne_probeKey]
    | _ => cases hmay
  | _ => exact Or.inr fun c hc => nomatch hc

/-- A key that an operation does not write is as it was. -/
theorem live_frame {key : String} (hex : exec e choice s = some (r, s')) (hchoice : choice ≠ .cancelled false)
    (hr : r ≠ .error .redisError) (hkey : ∀ c, e = .redis c → key ∉ c.writes) :
    live? s'.time s'.store key = live? s.time s.store key := by
  by_cases he : ∃ c, e = .redis c
  · obtain ⟨c, rfl⟩ := he
    obtain ⟨htime, hstore, -⟩ := carried hex hchoice hr
    rw [htime, hstore]
    exact live?_congr (exec_frame (hkey c rfl))
  · obtain ⟨htime, hstore⟩ := exec_apart hex (not_exists.mp he)
    rw [htime, hstore]

/-- Setting the `OPEN` key puts it there. -/
theorem open_set {v : Int} {n : Nat} {r : Except Exn (Redis.Reply Int)} (hn : 0 < n)
    (hex : exec (.redis (.set (openKey name) v (some n) false)) choice s = some (r, s'))
    (hchoice : choice ≠ .cancelled false) (hr : r ≠ .error .redisError) : live? s'.time s'.store (openKey name) ≠ none := by
  obtain ⟨htime, hstore, -⟩ := carried hex hchoice hr
  rw [htime, hstore, exec_set hn, live?_insert (by simp [Entry.live, deadline, hn])]
  simp

theorem open_kept (hmay : (failMonitor cluster name).may g e) (hex : exec e choice s = some (r, s'))
    (hchoice : choice ≠ .cancelled false) (hr : r ≠ .error .redisError)
    (hopen : live? s.time s.store (openKey name) ≠ none) : live? s'.time s'.store (openKey name) ≠ none := by
  rcases open_writes hmay with ⟨v, n, rfl, hn⟩ | hkey
  · exact open_set hn hex hchoice hr
  · rwa [live_frame hex hchoice hr hkey]

theorem exec_incr_reply {now : Nat} {store : Store Int} {key : String} :
    (∃ n, (Redis.exec now (.incr key) store).1 = .int n) ∨ (Redis.exec now (.incr key) store).1 = .error := by
  simp only [Redis.exec, Redis.modify]
  split
  · exact Or.inr rfl
  · rename_i v reply h
    have hreply : ∃ n, reply = .int n := by
      split at h
      · cases h
        exact ⟨_, rfl⟩
      · obtain ⟨n, -, hn⟩ := Option.map_eq_some_iff.mp h
        cases hn
        exact ⟨_, rfl⟩
      · cases h
    obtain ⟨n, rfl⟩ := hreply
    split <;> exact Or.inl ⟨n, rfl⟩

/-- Whatever a call that records a failure is answered, it goes on. -/
theorem fail_next (hmay : (failMonitor cluster name).may g e) (hex : exec e choice s = some (r, s'))
    (hchoice : choice ≠ .cancelled false) (hr : r ≠ .error .redisError) :
    ∃ g', (failMonitor cluster name).next g e r g' := by
  cases e with
  | redis c =>
    obtain ⟨-, -, hcarried⟩ := carried hex hchoice hr
    have hanswer : (∃ reply, reply = (Redis.exec s.time c s.store).1 ∧ reply ≠ .error ∧ r = .ok reply) ∨
        r = .error .cancelled := hcarried.imp_left fun h => ⟨_, rfl, h.1, h.2⟩
    rcases hanswer with ⟨reply, hreply, herr, rfl⟩ | rfl
    · cases c with
      | incr key =>
        rcases @exec_incr_reply s.time s.store key with ⟨n, hn⟩ | hn
        · exact ⟨_, n, hreply.trans hn, rfl⟩
        · exact absurd (hreply.trans hn) herr
      | _ => exact ⟨_, rfl⟩
    · cases c <;> first | exact ⟨_, rfl, rfl⟩
  | _ => exact ⟨_, rfl⟩

/-- `EXPIRE` keeps the value of a key. -/
theorem expire_value {now n : Nat} {store : Store Int} {key : String} (hn : 0 < n) :
    value? now (Redis.exec now (.expire key n) store).2 key = value? now store key := by
  cases h : live? now store key with
  | none => simp [Redis.exec, value?, h]
  | some e =>
    rw [exec_expire_live h, value?, live?_insert (by simp [Entry.live, deadline, hn]), value?, h]
    rfl

/-- As long as nothing is published, every call that is answered a low count, or has returned, has been answered a
    count of its own. -/
structure Low (cluster : ClusterBreakers) (name : String) (events : List (methods cluster).Event) (s : Site)
    (Γ : (failWatch cluster name).Board) : Prop where
  count : ∃ n, Counted name s n ∧ ((below name events).length : Int) ≤ n
  bound : ((below name events).length : Int) < cluster.failureThreshold
  each : ∀ i, (recorded name events).count i ≤ (below name events).count i
  low : ∀ i c, Γ i = some (c, .low) → (recorded name events).count i < (below name events).count i
  unsent : ∀ i c, Γ i ≠ some (c, .sent)

variable {events : List (methods cluster).Event} {Γ : (failWatch cluster name).Board} {i : Nat} {c : Call}

/-- What counts nothing and publishes nothing keeps all of that. -/
theorem Low.quiet (h : Low cluster name events s Γ) {v : (methods cluster).Event}
    (hcount : ∀ n, Counted name s n → Counted name s' n) (hbelow : belowThreshold name v = none)
    (hret : returned name v = none) (hg : ∀ c', (c, g') = (c', FailPhase.low) → Γ i = some (c', .low)) (hsent : g' ≠ .sent) :
    Low cluster name (v :: events) s' (Function.update Γ i (some (c, g'))) := by
  have hb : below name (v :: events) = below name events := List.filterMap_cons_none hbelow
  have hrec : recorded name (v :: events) = recorded name events := List.filterMap_cons_none hret
  refine ⟨?_, by rw [hb]; exact h.bound, fun j => by rw [hb, hrec]; exact h.each j, fun j c' hj => ?_, fun j c' hj => ?_⟩
  · rw [hb]
    obtain ⟨n, hn, hle⟩ := h.count
    exact ⟨n, hcount n hn, hle⟩
  · rw [hb, hrec]
    rcases board_entry hj with ⟨rfl, he⟩ | ⟨-, hj⟩
    · exact h.low j c' (hg c' he)
    · exact h.low j c' hj
  · rcases board_entry hj with ⟨rfl, he⟩ | ⟨-, hj⟩
    · cases he
      exact hsent rfl
    · exact h.unsent j c' hj

theorem Counted.congr {n : Int} (h : Counted name s n)
    (hv : value? s'.time s'.store (failsKey name) = value? s.time s.store (failsKey name)) : Counted name s' n := by
  unfold Counted
  rwa [hv]

/-- A call is answered a low count, one that no call has been answered before. -/
theorem Low.answered (h : Low cluster name events s Γ) {v : (methods cluster).Event} {n : Int}
    (hv : belowThreshold name v = some i) (hret : returned name v = none) (hcount : Counted name s' (n + 1))
    (hle : ((below name events).length : Int) ≤ n) (hlow : n + 1 < cluster.failureThreshold) :
    Low cluster name (v :: events) s' (Function.update Γ i (some (c, .low))) := by
  have hb : below name (v :: events) = i :: below name events := List.filterMap_cons_some hv
  have hrec : recorded name (v :: events) = recorded name events := List.filterMap_cons_none hret
  refine ⟨⟨n + 1, hcount, ?_⟩, ?_, fun j => ?_, fun j c' hj => ?_, fun j c' hj => ?_⟩
  · rw [hb, List.length_cons]
    omega
  · rw [hb, List.length_cons]
    omega
  · rw [hb, hrec]
    exact (h.each j).trans List.count_le_count_cons
  · rw [hb, hrec]
    rcases board_entry hj with ⟨rfl, -⟩ | ⟨hne, hj⟩
    · rw [List.count_cons_self]
      exact Nat.lt_succ_of_le (h.each j)
    · rw [List.count_cons_of_ne (Ne.symm hne)]
      exact h.low j c' hj
  · rcases board_entry hj with ⟨rfl, he⟩ | ⟨-, hj⟩
    · cases he
    · exact h.unsent j c' hj

/-- The answer to one more failure. -/
theorem Low.incr (h : Low cluster name events s Γ) {r : Except Exn (Redis.Reply Int)}
    (hex : exec (.redis (.incr (failsKey name))) choice s = some (r, s')) (hchoice : choice ≠ .cancelled false)
    (hr : r ≠ .error .redisError) (hn : (failMonitor cluster name).next .idle (.redis (.incr (failsKey name))) r g') :
    Low cluster name (.did i c (.redis (.incr (failsKey name))) r :: events) s' (Function.update Γ i (some (c, g'))) := by
  obtain ⟨htime, hstore, hcarried⟩ := carried hex hchoice hr
  obtain ⟨n, hcount, hle⟩ := h.count
  obtain ⟨expiresAt, hincr, hlive⟩ := exec_incr_counts hcount
  have hcount' : Counted name s' (n + 1) := by
    refine Or.inl ?_
    rw [htime, hstore, hincr, value?, live?_insert hlive]
    rfl
  have h' : Low cluster name events s' Γ := ⟨⟨n + 1, hcount', by omega⟩, h.bound, h.each, h.low, h.unsent⟩
  rcases hcarried with ⟨-, hok⟩ | rfl
  · have hok : r = .ok (.int (n + 1)) := by rw [hok, hincr]
    subst hok
    obtain ⟨n', hn', rfl⟩ := hn
    cases hn'
    by_cases hlow : n + 1 < cluster.failureThreshold
    · rw [if_pos hlow]
      exact h.answered (if_pos ⟨rfl, hlow⟩) rfl hcount' hle hlow
    · rw [if_neg hlow]
      exact h'.quiet (fun _ h => h) (if_neg fun hc => hlow hc.2) rfl (fun c' hc => by cases hc) (fun hc => by cases hc)
  · obtain ⟨-, rfl⟩ := hn
    exact h'.quiet (fun _ h => h) rfl rfl (fun c' hc => by cases hc) (fun hc => by cases hc)

/-- One operation of a call that records a failure. -/
theorem Low.fail (h : Low cluster name events s Γ) (hg : Γ i = some (c, g)) (hmay : (failMonitor cluster name).may g e)
    (hex : exec e choice s = some (r, s')) (hchoice : choice ≠ .cancelled false) (hr : r ≠ .error .redisError)
    (hn : (failMonitor cluster name).next g e r g') : live? s'.time s'.store (openKey name) ≠ none ∨
      Low cluster name (.did i c e r :: events) s' (Function.update Γ i (some (c, g'))) := by
  have hsent : g ≠ .sent := fun hc => h.unsent i c (hc ▸ hg)
  cases e with
  | redis cmd =>
    cases cmd with
    | incr key =>
      obtain ⟨rfl, rfl⟩ := hmay
      exact Or.inr (h.incr hex hchoice hr hn)
    | expire key n =>
      obtain ⟨rfl, hpos⟩ := hmay
      obtain ⟨htime, hstore, -⟩ := carried hex hchoice hr
      have hgg : g' = g := by
        cases r with
        | ok reply => exact hn
        | error x => exact hn.2
      subst hgg
      refine Or.inr (h.quiet (fun n hc => hc.congr ?_) rfl rfl (fun c' hc => by cases hc; exact hg) hsent)
      rw [htime, hstore, expire_value hpos]
    | set key v ex nx =>
      obtain ⟨rfl, rfl, n, rfl, hpos⟩ := hmay
      exact Or.inl (open_set hpos hex hchoice hr)
    | del keys => exact absurd hmay.2 hsent
    | _ => cases hmay
  | breaker r' m method =>
    obtain ⟨htime, hstore⟩ := exec_apart hex (fun c hc => by cases hc)
    obtain rfl : g' = g := hn
    exact Or.inr (h.quiet (fun n hc => hc.congr (by rw [htime, hstore])) rfl rfl (fun c' hc => by cases hc; exact hg) hsent)
  | _ => cases hmay

/-- One operation of any other call. -/
theorem Low.spares (h : Low cluster name events s Γ) (he : e.sparesShared name) (hex : exec e choice s = some (r, s'))
    (hchoice : choice ≠ .cancelled false) (hr : r ≠ .error .redisError) :
    Low cluster name (.did i c e r :: events) s' (Function.update Γ i (some (c, .idle))) := by
  refine h.quiet (fun n hc => hc.congr ?_) ?_ rfl (fun c' hc => by cases hc) (fun hc => by cases hc)
  · rw [value?, value?, live_frame hex hchoice hr fun cmd hcmd => by subst hcmd; exact he.1]
  · unfold belowThreshold
    split
    · rename_i heq
      cases heq
      exact if_neg fun hc => he.1 (by simp [Cmd.writes, hc.1])
    · rfl

/-- A call that returns has been answered a low count, which is its own. -/
theorem Low.ended (h : Low cluster name events s Γ) (hg : Γ i = some (c, g)) {r : Except Exn Result}
    (hlast : callEnds name c r g) : Low cluster name (.ended i c r :: events) s (Function.update Γ i none) := by
  have hb : below name (Event.ended (S := methods cluster) i c r :: events) = below name events :=
    List.filterMap_cons_none rfl
  have hrec : recorded name (Event.ended (S := methods cluster) i c r :: events) = recorded name events ∨
      (recorded name (Event.ended (S := methods cluster) i c r :: events) = i :: recorded name events ∧ g = .low) := by
    cases hret : returned name (Event.ended (S := methods cluster) i c r) with
    | none => exact Or.inl (List.filterMap_cons_none hret)
    | some j =>
      unfold returned at hret
      split at hret
      · rename_i i' replica m a heq
        cases heq
        split at hret
        · rename_i hm
          subst hm
          cases hret
          refine Or.inr ⟨List.filterMap_cons_some (if_pos rfl), ?_⟩
          rcases hlast replica a rfl rfl with rfl | rfl
          · rfl
          · exact absurd hg (h.unsent _ _)
        · cases hret
      · cases hret
  refine ⟨by rw [hb]; exact h.count, by rw [hb]; exact h.bound, fun j => ?_, fun j c' hj => ?_,
    fun j c' hj => h.unsent j c' (clear_entry hj).2⟩
  · rw [hb]
    rcases hrec with hrec | ⟨hrec, rfl⟩
    · rw [hrec]
      exact h.each j
    · rw [hrec]
      by_cases hj : j = i
      · subst hj
        rw [List.count_cons_self]
        exact h.low j c hg
      · rw [List.count_cons_of_ne (Ne.symm hj)]
        exact h.each j
  · obtain ⟨hne, hj⟩ := clear_entry hj
    rw [hb]
    rcases hrec with hrec | ⟨hrec, -⟩
    · rw [hrec]
      exact h.low j c' hj
    · rw [hrec, List.count_cons_of_ne (Ne.symm hne)]
      exact h.low j c' hj

/-- Fewer calls than the threshold says have returned. -/
theorem Low.recorded_lt (h : Low cluster name events s Γ) :
    ((recorded name events).length : Int) < cluster.failureThreshold := by
  have hle := (List.subperm_ext_iff.mpr fun i _ => h.each i).length_le
  have := h.bound
  omega

/-! ### Runs -/

/-- Since `w₀` the `OPEN` key has been set, or every call has been answered a count of its own. -/
def Tallied (name : String) (w₀ : (methods cluster).World) (s : Site) (tr : List (methods cluster).Event)
    (Γ : (failWatch cluster name).Board) : Prop :=
  ∃ events, tr = events ++ w₀.trace ∧ (∀ i r g, Γ i ≠ some (.recordSuccess r name, g)) ∧
    (live? s.time s.store (openKey name) ≠ none ∨ Low cluster name events s Γ)

theorem tallied_rules (name : String) (w₀ : (methods cluster).World) :
    Rules (failWatch cluster name) (Undisturbed name) (Tallied name w₀) where
  start := by
    rintro w Γ i c - ⟨events, htr, hnone, h⟩ - - hP
    refine ⟨.start i c :: events, by rw [htr]; rfl, fun j r g hj => ?_, h.imp_right fun h =>
      h.quiet (fun _ h => h) rfl rfl (fun c' hc => by cases hc) (fun hc => by cases hc)⟩
    rcases board_entry hj with ⟨-, he⟩ | ⟨-, hj⟩
    · cases he
      exact hP.noSuccess i r rfl
    · exact hnone j r g hj
  op := by
    rintro w Γ i choice c g e r s - ⟨events, htr, hnone, h⟩ hg ⟨k, ht⟩ hmay hex hP
    change (callMonitor cluster name c).may g e at hmay
    have hr := hP.served i choice c e k r s rfl ht hex
    have hchoice : choice ≠ .cancelled false := fun hc => hP.delivered i (by rw [hc])
    have hsuccess : ∀ r, c ≠ .recordSuccess r name := fun r hc => hnone i r g (hc ▸ hg)
    have keeps : ∀ {g'}, ∀ j r g, Function.update Γ i (some (c, g')) j ≠ some (.recordSuccess r name, g) := by
      intro g' j r g hj
      rcases board_entry hj with ⟨-, he⟩ | ⟨-, hj⟩
      · cases he
        exact hsuccess r rfl
      · exact hnone j r g hj
    by_cases hf : ∃ replica, c = .recordFailure replica name
    · obtain ⟨replica, rfl⟩ := hf
      rw [callMonitor_failure] at hmay
      obtain ⟨g', hn⟩ := fail_next hmay hex hchoice hr
      refine ⟨g', ?_, .did i _ e r :: events, by rw [htr]; rfl, keeps, ?_⟩
      · change (callMonitor cluster name _).next g e r g'
        rwa [callMonitor_failure]
      · rcases h with hopen | h
        · exact Or.inl (open_kept hmay hex hchoice hr hopen)
        · exact h.fail hg hmay hex hchoice hr hn
    · rw [callMonitor_spares (not_exists.mp hf) hsuccess] at hmay
      refine ⟨.idle, ?_, .did i c e r :: events, by rw [htr]; rfl, keeps, ?_⟩
      · change (callMonitor cluster name c).next g e r .idle
        rw [callMonitor_spares (not_exists.mp hf) hsuccess]
        rfl
      · rcases h with hopen | h
        · refine Or.inl ?_
          rwa [live_frame hex hchoice hr fun cmd hcmd => by subst hcmd; exact hmay.2]
        · exact Or.inr (h.spares hmay hex hchoice hr)
  ended := by
    rintro s tr Γ i c g r ⟨events, htr, hnone, h⟩ hg hlast
    exact ⟨.ended i c r :: events, by rw [htr]; rfl, fun j r g hj => hnone j r g (clear_entry hj).2,
      h.imp_right fun h => h.ended hg hlast⟩
  kill := by
    rintro w Γ i c g - - - hm -
    cases hm
  env := by
    rintro w Γ b s - ⟨events, htr, hnone, h⟩ hb hP
    have hkeys := hP.keys b s rfl hb
    refine ⟨events, htr, hnone, ?_⟩
    rcases h with hopen | h
    · exact Or.inl (by rwa [hkeys _ (by simp)])
    · refine Or.inr ⟨?_, h.bound, h.each, h.low, h.unsent⟩
      obtain ⟨n, hn, hle⟩ := h.count
      exact ⟨n, hn.congr (by rw [value?, value?, hkeys _ (by simp)]), hle⟩

/-- What is known of the calls under way when none of them is about the deployment. -/
def elsewhereMonitor (name : String) : Call → Monitor Op Op.Reply Exn FailPhase
  | .recordFailure _ m | .recordSuccess _ m => if m = name then freeMonitor else sparesMonitor name
  | _ => sparesMonitor name

theorem elsewhereMonitor_spares {c : Call} (hf : ∀ r, c ≠ .recordFailure r name) (hs : ∀ r, c ≠ .recordSuccess r name) :
    elsewhereMonitor name c = sparesMonitor name := by
  cases c with
  | recordFailure r m => exact if_neg fun h => hf r (by rw [h])
  | recordSuccess r m => exact if_neg fun h => hs r (by rw [h])
  | _ => rfl

/-- No operation and no answer makes a monitor of other calls leave its only state. -/
theorem elsewhereMonitor_next {c : Call} {g' : FailPhase} : (elsewhereMonitor name c).next g e r g' ↔ g' = .idle := by
  cases c with
  | recordFailure r m =>
    simp only [elsewhereMonitor]
    split <;> exact Iff.rfl
  | recordSuccess r m =>
    simp only [elsewhereMonitor]
    split <;> exact Iff.rfl
  | _ => exact Iff.rfl

variable (cluster name) in
/-- Every call is watched for leaving the name alone. -/
def elsewhereWatch : Watch (methods cluster) where
  G := FailPhase
  monitor := elsewhereMonitor name
  first _ := .idle
  last _ _ _ := True

theorem elsewhereWatch_sound : (elsewhereWatch cluster name).Sound := by
  intro c
  show Follows (elsewhereMonitor name c) (fun _ _ => True) (c.body cluster) FailPhase.idle
  have free : Follows freeMonitor (fun _ _ => True) (c.body cluster) FailPhase.idle :=
    Follows.always (M := freeMonitor) (I := fun _ => True) (fun _ _ _ => trivial) (fun _ _ _ _ _ _ => trivial)
      (fun _ _ _ => trivial) trivial
  by_cases hf : ∃ r, c = .recordFailure r name
  · obtain ⟨r, rfl⟩ := hf
    rwa [show elsewhereMonitor name (.recordFailure r name) = freeMonitor from if_pos rfl]
  · by_cases hs : ∃ r, c = .recordSuccess r name
    · obtain ⟨r, rfl⟩ := hs
      rwa [show elsewhereMonitor name (.recordSuccess r name) = freeMonitor from if_pos rfl]
    · have hf := not_exists.mp hf
      have hs := not_exists.mp hs
      rw [elsewhereMonitor_spares hf hs]
      exact (body_spares hf hs).follows (M := sparesMonitor name) (I := fun _ => True) (fun _ _ _ he => he)
        (fun _ _ _ _ _ _ _ => trivial) (fun _ _ _ => trivial) trivial

/-- The calls under way can be watched, when none of them is about the deployment. -/
theorem tallied_of_noneUnderWay {start : Site} {w : (methods cluster).World} {n : Int}
    (hpositive : 1 ≤ cluster.failureThreshold) (h : World.Reaches World.anyStep (quiet cluster start) w)
    (hnone : NoneUnderWay name w) (hcount : Counted name w.state n) (hn : 0 ≤ n) :
    ∃ Γ, (failWatch cluster name).Shows w Γ ∧ Tallied name w w.state w.trace Γ := by
  have R : Rules (elsewhereWatch cluster name) World.anyStep fun _ _ Γ => ∀ i c g, Γ i = some (c, g) → g = FailPhase.idle :=
    { start := fun _ h _ _ _ j c g hj => by
        rcases board_entry hj with ⟨-, he⟩ | ⟨-, hj⟩
        · cases he
          rfl
        · exact h j c g hj
      op := fun _ h _ _ _ _ _ => ⟨.idle, elsewhereMonitor_next.mpr rfl, fun j c g hj => by
        rcases board_entry hj with ⟨-, he⟩ | ⟨-, hj⟩
        · cases he
          rfl
        · exact h j c g hj⟩
      ended := fun h _ _ j c g hj => h j c g (clear_entry hj).2
      kill := fun _ h _ _ _ j c g hj => h j c g (clear_entry hj).2
      env := fun _ h _ _ => h }
  obtain ⟨Γ, hΓ, hidle⟩ := R.reaches elsewhereWatch_sound h ⟨fun _ => none, fun _ => rfl, nofun⟩
  refine ⟨Γ, fun i => ?_, [], rfl, fun i r g hg => ?_, Or.inr ⟨⟨n, hcount, hn⟩, hpositive, fun _ => le_rfl,
    fun i c hg => (by cases hidle i c _ hg), fun i c hg => (by cases hidle i c _ hg)⟩⟩
  · have hi := hΓ i
    split at hi
    · exact hi
    · rename_i t ht
      obtain ⟨hwaits, g, hg, hfollows⟩ := hi
      refine ⟨hwaits, g, hg, ?_⟩
      change Follows (elsewhereMonitor name t.call) _ t.prog g at hfollows
      show Follows (callMonitor cluster name t.call) (callEnds name t.call) t.prog g
      have hf := fun r => (hnone i t r ht).1
      have hs := fun r => (hnone i t r ht).2
      rw [elsewhereMonitor_spares hf hs] at hfollows
      rw [callMonitor_spares hf hs]
      exact hfollows.mono fun o g _ r a hc => absurd hc (hf r)
  · obtain ⟨p, hp⟩ := hΓ.thread hg
    exact (hnone i _ r hp).2 rfl

theorem opens_on_failures (hpositive : 1 ≤ cluster.failureThreshold) (start : Site) : OpensOnFailures cluster start := by
  intro name w₀ w n events h₀ hnone hcount hn hrun htr hthreshold
  obtain ⟨Γ, -, events', htr', -, h⟩ := (tallied_rules name w₀).reaches failWatch_sound hrun
    (tallied_of_noneUnderWay hpositive h₀ hnone hcount hn)
  rw [htr, List.append_cancel_right_eq] at htr'
  subst htr'
  rcases h with hopen | h
  · exact hopen
  · exact absurd hthreshold (not_le.mpr h.recorded_lt)

end

end NexusGate.Gateway.Router
