import NexusGate.Async.RefreshWindow
import NexusGate.Gateway.Scene

/-! # How old the shared state is that a sync returns with

The syncs of one replica, one after the other. A sync within the window of the last one that read returns at
once, whichever deployments that one read. -/

namespace NexusGate.Gateway.Router
open Async Redis

/-- Surroundings that note which keys have been read, and at which reading of the clock of `ClusterBreakers`. -/
structure Timed extends Scene where
  now : ℚ := 0
  reads : List (ℚ × String) := []

/-- The scene, with the reads of Redis noted beside the clock of the replica. -/
def timed : Handler Op Op.Reply Exn Timed := fun e s =>
  let (r, scene) := answer true e s.toScene
  (r, match e with
    | .redis (.get key) => { s with toScene := scene, reads := (s.now, key) :: s.reads }
    | .monotonic _ => { s with toScene := scene, now := s.monotonic.head }
    | _ => { s with toScene := scene })

/-- What is left alone by all but the reads themselves. -/
structure Unread (s s' : Timed) : Prop where
  now : s'.now = s.now
  monotonic : s'.monotonic = s.monotonic
  syncedAt : s'.syncedAt = s.syncedAt
  reads : s'.reads = s.reads

theorem redis_clocks {s : Scene} {c : Cmd Int} :
    (s.redis c).2.monotonic = s.monotonic ∧ (s.redis c).2.syncedAt = s.syncedAt := by
  simp only [Scene.redis, State.redis]
  split <;> simp

/-- What follows the reads in a sync. -/
def Op.afterReads : Op → Prop
  | .known _ _ | .breaker _ _ _ => True
  | .redis (.set key _ _ _) => ∃ name, key = probeKey name
  | _ => False

/-- What a sync does. -/
def Op.inSync : Op → Prop
  | .monotonic _ | .syncedAt _ | .stamp _ _ | .redis (.get _) => True
  | e => e.afterReads

theorem unread_of_afterReads {e : Op} {s s' : Timed} (he : e.afterReads) (h : Unread s s') :
    Unread s (timed e s').2 := by
  cases e with
  | known _ _ => exact h
  | breaker _ _ _ => exact ⟨h.now, h.monotonic, h.syncedAt, h.reads⟩
  | redis c =>
    cases c with
    | set key v ttl nx =>
      obtain ⟨hm, hs⟩ := @redis_clocks s'.toScene (.set key v ttl nx)
      exact ⟨h.now, hm.trans h.monotonic, hs.trans h.syncedAt, h.reads⟩
    | _ => cases he
  | _ => cases he

theorem gets_ends {keys : List String} : ∀ {s : Timed},
    Ends timed (pipeline (keys.map .get)) s fun r s' => (∀ x, r = .error x → x.isException = true) ∧
      s'.monotonic = s.monotonic ∧ s'.syncedAt = s.syncedAt ∧ s'.now = s.now ∧
      ∀ read, read ∈ s'.reads ↔ read ∈ s.reads ∨ (read.1 = s.now ∧ read.2 ∈ keys) := by
  induction keys with
  | nil => exact .ret ⟨nofun, rfl, rfl, rfl, by simp⟩
  | cons key keys ih =>
    intro s
    have first : Ends timed (redis (.get key)).attempt s fun r s' => ∃ o, r = .ok o ∧
        (∀ x, o = .error x → x.isException = true) ∧ s'.monotonic = s.monotonic ∧ s'.syncedAt = s.syncedAt ∧
        s'.now = s.now ∧ s'.reads = (s.now, key) :: s.reads := by
      refine .attempt (.call ⟨_, rfl, fun x hx => ?_, ?_⟩)
      · simp only [timed, answer, if_true, Scene.redis, State.redis] at hx
        split at hx <;> cases hx
        rfl
      · obtain ⟨hm, hs⟩ := @redis_clocks s.toScene (.get key)
        exact ⟨hm, hs, rfl, rfl⟩
    refine first.bind (fun o s₁ ho => ?_) fun _ _ hx => by obtain ⟨_, hx, -⟩ := hx; cases hx
    obtain ⟨o', ho, hx, hm, hs, hnow, hreads⟩ := ho
    cases ho
    have others : Ends timed (pipeline (keys.map .get)).attempt s₁ fun r s' => ∃ o, r = .ok o ∧
        (∀ x, o = .error x → x.isException = true) ∧ s'.monotonic = s.monotonic ∧ s'.syncedAt = s.syncedAt ∧
        s'.now = s.now ∧ ∀ read, read ∈ s'.reads ↔ read ∈ s.reads ∨ (read.1 = s.now ∧ read.2 ∈ key :: keys) := by
      refine .attempt (ih.mono fun r s' h => ⟨r, rfl, h.1, h.2.1.trans hm, h.2.2.1.trans hs, h.2.2.2.1.trans hnow, ?_⟩)
      intro read
      rw [h.2.2.2.2 read, hreads, hnow, List.mem_cons, List.mem_cons, Prod.ext_iff]
      tauto
    refine others.bind (fun os s₂ hos => ?_) fun _ _ hx => by obtain ⟨_, hx, -⟩ := hx; cases hx
    obtain ⟨os', hos, hxs, h⟩ := hos
    cases hos
    cases o with
    | error x => exact .throw ⟨fun _ h => hx _ (by cases h; rfl), h⟩
    | ok reply =>
      cases os with
      | error x => exact .throw ⟨fun _ h => hxs _ (by cases h; rfl), h⟩
      | ok replies => exact .ret ⟨nofun, h⟩

end NexusGate.Gateway.Router

namespace NexusGate.Gateway.ClusterBreakers
open Async Redis Router RefreshWindow
variable {self : ClusterBreakers} {replica : Nat}

theorem agreeOn_hands {name : String} {openFlag fails : Redis.Reply Int} :
    Hands Op.afterReads (self.agreeOn replica name openFlag fails) := by
  refine (Hands.call trivial).bind fun known => ?_
  show Hands _ (ite _ _ _)
  split
  · split
    · exact (Hands.call trivial).bind fun _ => .call trivial
    · refine (Hands.call trivial).bind fun state => ?_
      show Hands _ (ite _ _ _)
      split
      · refine (hands_caught (Hands.call ⟨name, rfl⟩)).bind fun won => ?_
        split <;> (show Hands _ (ite _ _ _); split; exact .call trivial; trivial)
      · split
        · exact (Hands.call trivial).bind fun _ => .call trivial
        · trivial
  · trivial

theorem agree_hands : ∀ {names : List String} {results : List (Redis.Reply Int)},
    Hands Op.afterReads (self.agree replica names results)
  | [], _ => trivial
  | _ :: _, [] => trivial
  | _ :: _, [_] => trivial
  | _ :: _, _ :: _ :: _ => agreeOn_hands.bind fun _ => agree_hands

/-- The keys that a sync reads. -/
def keysOf (names : List String) : List String := names.flatMap fun name => [openKey name, failsKey name]

theorem reads_eq {names : List String} : reads names = (keysOf names).map .get := by
  simp [reads, keysOf, List.map_flatMap]

theorem sync_hands {names : List String} : Hands Op.inSync (self.sync replica names) := by
  refine (Hands.call trivial).bind fun now => (Hands.call trivial).bind fun syncedAt => ?_
  show Hands _ (ite _ _ _)
  split
  · trivial
  · refine (Hands.call trivial).bind fun _ => (hands_caught (pipeline_hands fun c hc => ?_)).bind fun o => ?_
    · rw [reads_eq] at hc
      obtain ⟨key, -, rfl⟩ := List.mem_map.mp hc
      trivial
    · cases o with
      | error e => trivial
      | ok results =>
        refine agree_hands.mono fun e he => ?_
        cases e with
        | redis c => cases c <;> first | exact he | cases he
        | known _ _ => trivial
        | breaker _ _ _ => trivial
        | _ => cases he

/-- What one sync does about the reads. -/
theorem sync_timed {names : List String} {s : Timed} : Ends timed (self.sync replica names) s fun _ s' =>
    s'.now = s.monotonic.head ∧ s'.monotonic = s.monotonic.tail ∧
      if (s.syncedAt replica).any fun t => s.monotonic.head - t < self.refreshSeconds then
        s'.syncedAt = s.syncedAt ∧ s'.reads = s.reads
      else s'.syncedAt replica = some s.monotonic.head ∧ ∀ read, read ∈ s'.reads ↔
        read ∈ s.reads ∨ (read.1 = s.monotonic.head ∧ read.2 ∈ keysOf names) := by
  refine Ends.bind (P := fun r s' => r = .ok s.monotonic.head ∧
      s' = { s with toScene := { s.toScene with monotonic := s.monotonic.tail }, now := s.monotonic.head })
    (.call ⟨rfl, rfl⟩) (fun now s₁ h => ?_) fun _ _ hx => by cases hx.1
  obtain ⟨hnow, rfl⟩ := h
  cases hnow
  refine Ends.bind (P := fun r s' => r = .ok (s.syncedAt replica) ∧ s' = _) (.call ⟨rfl, rfl⟩)
    (fun syncedAt s₁ h => ?_) fun _ _ hx => by cases hx.1
  obtain ⟨hat, rfl⟩ := h
  cases hat
  show Ends _ (ite _ _ _) _ _
  split
  · exact .ret ⟨rfl, rfl, rfl, rfl⟩
  · refine Ends.bind (P := fun r s' => r = .ok () ∧ s'.now = s.monotonic.head ∧ s'.monotonic = s.monotonic.tail ∧
        s'.syncedAt replica = some s.monotonic.head ∧ s'.reads = s.reads)
      (.call ⟨rfl, rfl, rfl, Function.update_self .., rfl⟩) (fun _ s₁ h => ?_) fun _ _ hx => by cases hx.1
    obtain ⟨-, hnow, hmono, hat, hreads⟩ := h
    have got : Ends timed (caught (pipeline (reads names))) s₁ fun r s' => (∃ o, r = .ok o) ∧
        s'.now = s.monotonic.head ∧ s'.monotonic = s.monotonic.tail ∧ s'.syncedAt replica = some s.monotonic.head ∧
        ∀ read, read ∈ s'.reads ↔ read ∈ s.reads ∨ (read.1 = s.monotonic.head ∧ read.2 ∈ keysOf names) := by
      rw [reads_eq]
      refine ends_caught (gets_ends.mono fun r s' h => ⟨h.1, ⟨r, rfl⟩, h.2.2.2.1.trans hnow, h.2.1.trans hmono, ?_, ?_⟩)
      · rw [h.2.2.1, hat]
      · rw [← hreads, ← hnow]
        exact h.2.2.2.2
    refine got.bind (fun o s₂ h => ?_) fun _ _ hx => by cases hx.1.choose_spec
    obtain ⟨-, hnow, hmono, hat, hreads⟩ := h
    cases o with
    | error e => exact .ret ⟨hnow, hmono, hat, hreads⟩
    | ok results =>
      refine (Ends.hands (I := Unread s₂) (fun e s' => unread_of_afterReads) agree_hands
        ⟨rfl, rfl, rfl, rfl⟩).mono fun _ s₃ h => ⟨h.now.trans hnow, h.monotonic.trans hmono, ?_, ?_⟩
      · rw [h.syncedAt, hat]
      · rw [h.reads]
        exact hreads

variable (self replica) in
/-- What one sync leaves. -/
def synced (s : Timed) (names : List String) : Timed := ((self.sync replica names).run timed s).2

/-- The calls with the readings of the clock that they find. -/
def readings (clock : Stream' ℚ) (calls : List (List String)) : List (ℚ × List String) :=
  calls.mapIdx fun i names => (clock.get i, names)

theorem readings_append {clock : Stream' ℚ} {calls : List (List String)} {names : List String} :
    readings clock (calls ++ [names]) = readings clock calls ++ [(clock.get calls.length, names)] := by
  simp [readings, List.mapIdx_append]

/-- What the syncs so far leave, the clock having given these readings. -/
structure HasRead (refresh : ℚ) (replica : Nat) (clock : Stream' ℚ) (calls : List (List String)) (s : Timed) :
    Prop where
  monotonic : s.monotonic = clock.drop calls.length
  syncedAt : s.syncedAt replica = (effective refresh (readings clock calls)).head?.map Prod.fst
  reads : ∀ read, read ∈ s.reads ↔
    ∃ call ∈ effective refresh (readings clock calls), read.1 = call.1 ∧ read.2 ∈ keysOf call.2

theorem hasRead_synced {clock : Stream' ℚ} {calls : List (List String)} {names : List String} {s : Timed}
    (h : HasRead self.refreshSeconds replica clock calls s) :
    HasRead self.refreshSeconds replica clock (calls ++ [names]) (self.synced replica s names) := by
  obtain ⟨-, hmono, hsync⟩ := @sync_timed self replica names s
  have hhead : s.monotonic.head = clock.get calls.length := by
    rw [h.monotonic, Stream'.head_drop]
  have hwithin : ((s.syncedAt replica).any fun t => s.monotonic.head - t < self.refreshSeconds) =
      (effective self.refreshSeconds (readings clock calls)).head?.any fun last =>
        clock.get calls.length - last.1 < self.refreshSeconds := by
    rw [h.syncedAt, hhead]
    cases (effective self.refreshSeconds (readings clock calls)).head? <;> rfl
  rw [hwithin] at hsync
  have hdrop : (self.synced replica s names).monotonic = clock.drop (calls ++ [names]).length := by
    rw [List.length_append, List.length_singleton, ← Stream'.tail_drop', ← h.monotonic]
    exact hmono
  by_cases hskip : ((effective self.refreshSeconds (readings clock calls)).head?.any fun last =>
      clock.get calls.length - last.1 < self.refreshSeconds) = true
  · rw [if_pos hskip] at hsync
    have heff : effective self.refreshSeconds (readings clock (calls ++ [names])) =
        effective self.refreshSeconds (readings clock calls) := by
      rw [readings_append, effective_append, if_pos hskip]
    refine ⟨hdrop, ?_, ?_⟩
    · rw [heff, ← h.syncedAt]
      exact congrFun hsync.1 replica
    · rw [heff]
      exact fun read => hsync.2 ▸ h.reads read
  · rw [if_neg hskip] at hsync
    have heff : effective self.refreshSeconds (readings clock (calls ++ [names])) =
        (clock.get calls.length, names) :: effective self.refreshSeconds (readings clock calls) := by
      rw [readings_append, effective_append, if_neg hskip]
    refine ⟨hdrop, ?_, fun read => ?_⟩
    · rw [heff, ← hhead]
      exact hsync.1
    · rw [heff, ← hhead]
      refine (hsync.2 read).trans ?_
      simp only [h.reads read, List.mem_cons, exists_eq_or_imp]
      exact or_comm

theorem hasRead_foldl {clock : Stream' ℚ} {calls : List (List String)} {s : Timed}
    (h : HasRead self.refreshSeconds replica clock [] s) :
    HasRead self.refreshSeconds replica clock calls (calls.foldl (self.synced replica) s) := by
  induction calls using List.reverseRecOn with
  | nil => exact h
  | append_singleton calls names ih =>
    rw [List.foldl_append]
    exact hasRead_synced ih

theorem mem_keysOf {name key : String} {names : List String} (hkey : key ∈ [openKey name, failsKey name]) :
    key ∈ keysOf names ↔ name ∈ names := by
  simp only [List.mem_cons, List.not_mem_nil, or_false] at hkey
  rcases hkey with rfl | rfl
  · simp [keysOf, openKey_inj, failsKey_ne_openKey.symm]
  · simp [keysOf, failsKey_inj, failsKey_ne_openKey]

/-- When a call returns, both keys of every deployment that it names have been read at most a window ago. -/
def KeepsFresh (self : ClusterBreakers) (names : List String) (s : Timed) : Prop :=
  ∀ name ∈ names, ∀ key ∈ [openKey name, failsKey name],
    ∃ read ∈ s.reads, read.2 = key ∧ s.now - read.1 ≤ self.refreshSeconds

/-- A sync of a replica that has made these calls before, from its start. -/
theorem keepsFresh_iff (self : ClusterBreakers) (replica : Nat) (calls : List (List String)) (names : List String)
    (scene : Scene) (hstart : scene.syncedAt replica = none)
    (hclock : ∀ i j, i ≤ j → scene.monotonic.get i ≤ scene.monotonic.get j) :
    self.KeepsFresh names ((calls ++ [names]).foldl (self.synced replica) { scene with }) ↔
      ∀ name ∈ names, 0 ≤ self.refreshSeconds ∧ Covers self.refreshSeconds (scene.monotonic.get calls.length) name
        (effective self.refreshSeconds (readings scene.monotonic calls)) := by
  have hread : HasRead self.refreshSeconds replica scene.monotonic [] { scene with } :=
    ⟨rfl, hstart, by simp [effective, readings]⟩
  have hnow : ((calls ++ [names]).foldl (self.synced replica) { scene with }).now =
      scene.monotonic.get calls.length := by
    rw [List.foldl_append]
    have hbefore := @hasRead_foldl self replica scene.monotonic calls _ hread
    have hnow := (@sync_timed self replica names (calls.foldl (self.synced replica) { scene with })).1
    rw [hbefore.monotonic, Stream'.head_drop] at hnow
    exact hnow
  have hafter := @hasRead_foldl self replica scene.monotonic (calls ++ [names]) _ hread
  have hpast : ∀ call ∈ readings scene.monotonic calls, call.1 ≤ scene.monotonic.get calls.length := by
    intro call hcall
    obtain ⟨i, hi, rfl⟩ := List.mem_mapIdx.mp hcall
    exact hclock i calls.length hi.le
  refine forall₂_congr fun name hname => ?_
  rw [← fresh_iff hpast hname, ← readings_append]
  constructor
  · intro h
    obtain ⟨read, hr, hkey, hage⟩ := h (openKey name) List.mem_cons_self
    obtain ⟨call, hcall, ht, hk⟩ := (hafter.reads read).mp hr
    rw [hkey, mem_keysOf List.mem_cons_self] at hk
    exact ⟨call, hcall, hk, by rwa [← ht, ← hnow]⟩
  · rintro ⟨call, hcall, hk, hage⟩ key hkey
    refine ⟨(call.1, key), (hafter.reads _).mpr ⟨call, hcall, rfl, (mem_keysOf hkey).mpr hk⟩, rfl, ?_⟩
    rwa [hnow]

namespace TwoRoutes

def shared : ClusterBreakers := { failureThreshold := 3, cooldownSeconds := 30 }

/-- The clock stands still. -/
def scene : Scene where
  breakers := fun _ _ => { failureThreshold := 3, cooldownSeconds := 30, positive := by decide }
  ticks := fun _ => 0
  monotonic := fun _ => 0
  answers := fun _ => { whole := .error .timeout, script := ⟨[], none⟩ }

/-- The traffic of one route keeps the window fresh, and the deployment of the other goes unread. -/
theorem not_keepsFresh : ¬shared.KeepsFresh ["b"] ([["a"], ["b"]].foldl (shared.synced 0) { scene with }) := by
  intro h
  obtain ⟨read, hread, hkey, -⟩ := h "b" List.mem_cons_self (openKey "b") List.mem_cons_self
  have hafter : HasRead shared.refreshSeconds 0 scene.monotonic [["a"], ["b"]] _ :=
    hasRead_foldl (s := { scene with }) ⟨rfl, rfl, by simp [effective, readings]⟩
  obtain ⟨call, hcall, -, hk⟩ := (hafter.reads read).mp hread
  have heff : effective shared.refreshSeconds (readings scene.monotonic [["a"], ["b"]]) = [(0, ["a"])] := by
    simp [effective, readings, shared, scene, Stream'.get]
  rw [heff] at hcall
  rw [List.mem_singleton.mp hcall, hkey, mem_keysOf List.mem_cons_self] at hk
  exact absurd hk (by decide)

/-- Routes that share their deployments keep each other fresh. -/
theorem shared_keepsFresh : shared.KeepsFresh ["b"] ([["a", "b"], ["b"]].foldl (shared.synced 0) { scene with }) := by
  refine (keepsFresh_iff shared 0 [["a", "b"]] ["b"] scene rfl fun _ _ _ => le_rfl).mpr fun name hname => ?_
  rw [List.mem_singleton.mp hname]
  exact ⟨by decide, Or.inr (Or.inl (by decide))⟩

end TwoRoutes

end NexusGate.Gateway.ClusterBreakers
