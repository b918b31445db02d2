import NexusGate.Async.Prog
import Mathlib.Logic.Relation
import Mathlib.Logic.Function.Basic

/-! # Pools of coroutines over a shared state

Any number of calls run at once, each a coroutine over one shared state. A step starts a call, lets one
call carry out the operation it waits at, lets a call vanish with its process, or changes the state from
outside. Calls of one place (one event loop) interleave only where they suspend: a call between two
suspensions keeps its place busy.

An invariant of a pool is proved against the monitor states of the running calls (`Rules`): the programs
themselves are met once, where each call's body is shown to follow its monitor. -/

namespace Async

/-- A kind of pool: the calls and their bodies, what an operation does to the state and what it may
    answer (the environment picks a `Choice`), and what may change the state from outside. -/
structure System where
  Op : Type
  Reply : Op → Type
  Exn : Type
  Result : Type
  State : Type
  Call : Type
  Choice : Type
  Env : Type
  body : Call → Prog Op Reply Exn Result
  admits : State → Call → Bool
  exec : (e : Op) → Choice → State → Option (Except Exn (Reply e) × State)
  env : Env → State → Option State
  /-- The event loop that runs a call. -/
  place : Call → Nat
  /-- Operations that are carried out without suspending. -/
  sync : Op → Bool
  /-- Calls whose process may die under them. -/
  mortal : Call → Bool

namespace System
variable (S : System)

abbrev Program := Prog S.Op S.Reply S.Exn S.Result

structure Thread where
  call : S.Call
  prog : S.Program

inductive Event
  | start (i : Nat) (c : S.Call)
  | did (i : Nat) (c : S.Call) (e : S.Op) (r : Except S.Exn (S.Reply e))
  | ended (i : Nat) (c : S.Call) (r : Except S.Exn S.Result)
  | killed (i : Nat) (c : S.Call)

/-- A pool: the shared state, the running calls, the calls that keep a place busy, and what has
    happened so far, newest first. -/
structure World where
  state : S.State
  threads : Nat → Option S.Thread := fun _ => none
  busy : Nat → Option Nat := fun _ => none
  trace : List S.Event := []

inductive Act
  | start (i : Nat) (c : S.Call)
  | op (i : Nat) (choice : S.Choice)
  | kill (i : Nat)
  | env (a : S.Env)

variable {S}

/-- Whether a program goes on without suspending. -/
def headSync : S.Program → Bool
  | .op e _ => S.sync e
  | _ => false

namespace World

def log (w : S.World) (v : S.Event) : S.World := { w with trace := v :: w.trace }

/-- Leave call `c` at `p`, or take it out when it has ended. -/
def park (w : S.World) (i : Nat) (c : S.Call) (p : S.Program) : S.World :=
  match p with
  | .op e k => { w with threads := Function.update w.threads i (some ⟨c, .op e k⟩) }
  | .ret a => { w with threads := Function.update w.threads i none, trace := .ended i c (.ok a) :: w.trace }
  | .throw x => { w with threads := Function.update w.threads i none, trace := .ended i c (.error x) :: w.trace }

/-- No other call is in the middle of a synchronous block at this place. -/
def free (w : S.World) (i : Nat) (c : S.Call) : Bool :=
  match w.busy (S.place c) with
  | none => true
  | some j => j == i

/-- Call `i` has carried out `e`: the state is `s`, the answer `r`, and `p` is what is left of it. -/
def did (w : S.World) (i : Nat) (c : S.Call) (e : S.Op) (r : Except S.Exn (S.Reply e)) (s : S.State)
    (p : S.Program) : S.World :=
  { w with
    state := s
    busy := Function.update w.busy (S.place c) (if headSync p then some i else none)
    trace := .did i c e r :: w.trace }

def step (w : S.World) : S.Act → Option S.World
  | .start i c =>
    if (w.threads i).isNone && S.admits w.state c then some ((w.log (.start i c)).park i c (S.body c)) else none
  | .op i choice =>
    match w.threads i with
    | some ⟨c, .op e k⟩ =>
      if w.free i c then
        (S.exec e choice w.state).map fun o => (w.did i c e o.1 o.2 (k o.1)).park i c (k o.1)
      else none
    | _ => none
  | .kill i =>
    match w.threads i with
    | some t =>
      if S.mortal t.call then
        some { w with
          threads := Function.update w.threads i none
          busy := Function.update w.busy (S.place t.call)
            (if w.busy (S.place t.call) = some i then none else w.busy (S.place t.call))
          trace := .killed i t.call :: w.trace }
      else none
    | none => none
  | .env a => (S.env a w.state).map fun s => { w with state := s }

/-- Take the steps of a list one after the other. -/
def run (w : S.World) : List S.Act → Option S.World
  | [] => some w
  | a :: as => (w.step a).bind fun w' => w'.run as

/-- One step that meets the condition `P`. -/
def Next (P : S.World → S.Act → Prop) (w w' : S.World) : Prop := ∃ a, P w a ∧ w.step a = some w'

/-- A run all of whose steps meet the condition `P`. -/
def Reaches (P : S.World → S.Act → Prop) : S.World → S.World → Prop := Relation.ReflTransGen (Next P)

/-- No condition on the steps. -/
def anyStep : S.World → S.Act → Prop := fun _ _ => True

theorem reaches_of_run {P : S.World → S.Act → Prop} {w w' : S.World} {as : List S.Act}
    (hP : ∀ a ∈ as, ∀ w, P w a) (h : w.run as = some w') : Reaches P w w' := by
  induction as generalizing w with
  | nil =>
    cases h
    exact Relation.ReflTransGen.refl
  | cons a as ih =>
    obtain ⟨w₁, h₁, h₂⟩ := Option.bind_eq_some_iff.mp h
    exact Relation.ReflTransGen.head ⟨a, hP a List.mem_cons_self w, h₁⟩
      (ih (fun b hb => hP b (List.mem_cons_of_mem _ hb)) h₂)

/-- Take the steps of a list as long as they pass a check. -/
def runIf (check : S.World → S.Act → Bool) (w : S.World) : List S.Act → Option S.World
  | [] => some w
  | a :: as => if check w a then (w.step a).bind fun w' => w'.runIf check as else none

theorem reaches_of_runIf {P : S.World → S.Act → Prop} {check : S.World → S.Act → Bool} {w w' : S.World}
    {as : List S.Act} (hP : ∀ w a, check w a = true → P w a) (h : w.runIf check as = some w') : Reaches P w w' := by
  induction as generalizing w with
  | nil =>
    cases h
    exact Relation.ReflTransGen.refl
  | cons a as ih =>
    rw [runIf] at h
    split at h
    · rename_i hcheck
      obtain ⟨w₁, h₁, h₂⟩ := Option.bind_eq_some_iff.mp h
      exact Relation.ReflTransGen.head ⟨a, hP w a hcheck, h₁⟩ (ih h₂)
    · cases h

/-- The operation that a step carries out. -/
def opOf (w : S.World) : S.Act → Option S.Op
  | .op i _ =>
    match w.threads i with
    | some ⟨_, .op e _⟩ => some e
    | _ => none
  | _ => none

theorem opOf_eq_some {w : S.World} {i : Nat} {choice : S.Choice} {e : S.Op} (h : w.opOf (.op i choice) = some e) :
    ∃ c k, w.threads i = some ⟨c, .op e k⟩ := by
  simp only [opOf] at h
  split at h
  · rename_i c e' k ht
    cases h
    exact ⟨c, k, ht⟩
  · cases h

theorem Reaches.invariant {P : S.World → S.Act → Prop} {I : S.World → Prop}
    (keep : ∀ w a w', I w → P w a → w.step a = some w' → I w') {w w' : S.World} (h : Reaches P w w')
    (h0 : I w) : I w' := by
  induction h with
  | refl => exact h0
  | tail _ hn ih =>
    obtain ⟨a, hp, hs⟩ := hn
    exact keep _ a _ ih hp hs

/-- Everything a step can be. -/
theorem step_cases {w w' : S.World} {a : S.Act} (h : w.step a = some w') :
    (∃ i c, a = .start i c ∧ w.threads i = none ∧ S.admits w.state c = true ∧
      w' = (w.log (.start i c)).park i c (S.body c)) ∨
    (∃ i choice c e k r s, a = .op i choice ∧ w.threads i = some ⟨c, .op e k⟩ ∧
      S.exec e choice w.state = some (r, s) ∧ w' = (w.did i c e r s (k r)).park i c (k r)) ∨
    (∃ i t busy, a = .kill i ∧ w.threads i = some t ∧ S.mortal t.call = true ∧
      w' = { w with threads := Function.update w.threads i none, busy, trace := .killed i t.call :: w.trace }) ∨
    (∃ b s, a = .env b ∧ S.env b w.state = some s ∧ w' = { w with state := s }) := by
  cases a with
  | start i c =>
    simp only [step] at h
    split at h
    · rename_i hc
      rw [Bool.and_eq_true, Option.isNone_iff_eq_none] at hc
      exact Or.inl ⟨i, c, rfl, hc.1, hc.2, (Option.some.inj h).symm⟩
    · cases h
  | op i choice =>
    simp only [step] at h
    split at h
    · rename_i c e k ht
      split at h
      · obtain ⟨⟨r, s⟩, he, rfl⟩ := Option.map_eq_some_iff.mp h
        exact Or.inr (Or.inl ⟨i, choice, c, e, k, r, s, rfl, ht, he, rfl⟩)
      · cases h
    · cases h
  | kill i =>
    simp only [step] at h
    split at h
    · rename_i t ht
      split at h
      · rename_i hm
        exact Or.inr (Or.inr (Or.inl ⟨i, t, _, rfl, ht, hm, (Option.some.inj h).symm⟩))
      · cases h
    · cases h
  | env b =>
    simp only [step] at h
    obtain ⟨s, hs, rfl⟩ := Option.map_eq_some_iff.mp h
    exact Or.inr (Or.inr (Or.inr ⟨b, s, rfl, hs, rfl⟩))

/-- A step only adds to what has happened. -/
theorem step_trace {w w' : S.World} {a : S.Act} (h : w.step a = some w') : ∃ events, w'.trace = events ++ w.trace := by
  have park : ∀ (w : S.World) (i : Nat) (c : S.Call) (p : S.Program), ∃ events, (w.park i c p).trace = events ++ w.trace := by
    intro w i c p
    cases p with
    | op e k => exact ⟨[], rfl⟩
    | ret a => exact ⟨[_], rfl⟩
    | throw x => exact ⟨[_], rfl⟩
  rcases step_cases h with ⟨i, c, rfl, -, -, rfl⟩ | ⟨i, choice, c, e, k, r, s, rfl, -, -, rfl⟩ |
    ⟨i, t, busy, rfl, -, -, rfl⟩ | ⟨b, s, rfl, -, rfl⟩
  · obtain ⟨events, he⟩ := park (w.log (.start i c)) i c (S.body c)
    exact ⟨events ++ [.start i c], by rw [he]; simp [log]⟩
  · obtain ⟨events, he⟩ := park (w.did i c e r s (k r)) i c (k r)
    exact ⟨events ++ [.did i c e r], by rw [he]; simp [did]⟩
  · exact ⟨[_], rfl⟩
  · exact ⟨[], rfl⟩

theorem Reaches.trace {P : S.World → S.Act → Prop} {w w' : S.World} (h : Reaches P w w') :
    ∃ events, w'.trace = events ++ w.trace := by
  induction h with
  | refl => exact ⟨[], rfl⟩
  | tail _ hn ih =>
    obtain ⟨a, -, hs⟩ := hn
    obtain ⟨events, he⟩ := ih
    obtain ⟨events', he'⟩ := step_trace hs
    exact ⟨events' ++ events, by rw [he', he, List.append_assoc]⟩

end World

/-! ## Watching the running calls -/

/-- A monitor for every call, the state it starts in, and what holds when the call ends. -/
structure Watch (S : System) where
  G : Type
  monitor : S.Call → Monitor S.Op S.Reply S.Exn G
  first : S.Call → G
  last : S.Call → Except S.Exn S.Result → G → Prop

/-- Every body does what its monitor says. -/
def Watch.Sound (V : Watch S) : Prop := ∀ c, Follows (V.monitor c) (V.last c) (S.body c) (V.first c)

/-- The running calls with their monitor states. -/
abbrev Watch.Board (V : Watch S) := Nat → Option (S.Call × V.G)

/-- The board shows exactly the running calls, each waiting at an operation, in a monitor state that the rest
    of it follows. -/
def Watch.Shows (V : Watch S) (w : S.World) (Γ : V.Board) : Prop :=
  ∀ i, match w.threads i with
    | none => Γ i = none
    | some t => (∃ e k, t.prog = .op e k) ∧
      ∃ g, Γ i = some (t.call, g) ∧ Follows (V.monitor t.call) (V.last t.call) t.prog g

/-- A property of the state, the trace and the board that every step keeps, the steps being taken
    under the condition `P`. -/
structure Rules (V : Watch S) (P : S.World → S.Act → Prop) (J : S.State → List S.Event → V.Board → Prop) :
    Prop where
  start : ∀ {w : S.World} {Γ : V.Board} {i c}, V.Shows w Γ → J w.state w.trace Γ → Γ i = none →
    S.admits w.state c = true → P w (.start i c) →
    J w.state (.start i c :: w.trace) (Function.update Γ i (some (c, V.first c)))
  op : ∀ {w : S.World} {Γ : V.Board} {i choice c g e r s}, V.Shows w Γ → J w.state w.trace Γ → Γ i = some (c, g) →
    (∃ k, w.threads i = some ⟨c, .op e k⟩) → (V.monitor c).may g e → S.exec e choice w.state = some (r, s) →
    P w (.op i choice) →
    ∃ g', (V.monitor c).next g e r g' ∧ J s (.did i c e r :: w.trace) (Function.update Γ i (some (c, g')))
  ended : ∀ {s tr} {Γ : V.Board} {i c g r}, J s tr Γ → Γ i = some (c, g) → V.last c r g →
    J s (.ended i c r :: tr) (Function.update Γ i none)
  kill : ∀ {w : S.World} {Γ : V.Board} {i c g}, V.Shows w Γ → J w.state w.trace Γ → Γ i = some (c, g) →
    S.mortal c = true → P w (.kill i) → J w.state (.killed i c :: w.trace) (Function.update Γ i none)
  env : ∀ {w : S.World} {Γ : V.Board} {b s}, V.Shows w Γ → J w.state w.trace Γ → S.env b w.state = some s →
    P w (.env b) → J s w.trace Γ

namespace Watch
variable {V : Watch S} {w : S.World} {Γ : V.Board} {i : Nat} {c : S.Call} {g : V.G}

theorem Shows.none_iff (h : V.Shows w Γ) : w.threads i = none ↔ Γ i = none := by
  have := h i
  split at this
  · rename_i ht
    exact ⟨fun _ => this, fun _ => ht⟩
  · rename_i t ht
    obtain ⟨-, g, hg, -⟩ := this
    simp [ht, hg]

theorem Shows.of_thread (h : V.Shows w Γ) {t : S.Thread} (ht : w.threads i = some t) :
    ∃ g, Γ i = some (t.call, g) ∧ Follows (V.monitor t.call) (V.last t.call) t.prog g := by
  have := h i
  rw [ht] at this
  exact this.2

/-- The thread behind an entry of the board. -/
theorem Shows.thread (h : V.Shows w Γ) (hg : Γ i = some (c, g)) : ∃ p, w.threads i = some ⟨c, p⟩ := by
  cases ht : w.threads i with
  | none => rw [h.none_iff.mp ht] at hg; cases hg
  | some t =>
    obtain ⟨g', hg', -⟩ := h.of_thread ht
    rw [hg'] at hg
    cases hg
    exact ⟨t.prog, rfl⟩

/-- A running call waits at an operation, and goes on as its monitor says. -/
theorem Shows.waits (h : V.Shows w Γ) (hg : Γ i = some (c, g)) : ∃ e k, w.threads i = some ⟨c, .op e k⟩ ∧
    Follows (V.monitor c) (V.last c) (.op e k) g := by
  obtain ⟨p, hp⟩ := h.thread hg
  have := h i
  rw [hp] at this
  obtain ⟨⟨e, k, rfl⟩, g', hg', hf⟩ := this
  rw [hg'] at hg
  cases hg
  exact ⟨e, k, hp, hf⟩

/-- A running call waits at an operation that its monitor allows. -/
theorem Shows.may (h : V.Shows w Γ) (hg : Γ i = some (c, g)) : ∃ e, (V.monitor c).may g e := by
  obtain ⟨e, k, -, hf⟩ := h.waits hg
  exact ⟨e, (Follows.op_iff.mp hf).1⟩

theorem Shows.update (h : V.Shows w Γ) {w' : S.World} {t : Option S.Thread} {x : Option (S.Call × V.G)}
    (hx : match t with
      | none => x = none
      | some t => (∃ e k, t.prog = .op e k) ∧
        ∃ g, x = some (t.call, g) ∧ Follows (V.monitor t.call) (V.last t.call) t.prog g)
    (ht : w'.threads = Function.update w.threads i t) : V.Shows w' (Function.update Γ i x) := by
  intro j
  rw [ht]
  by_cases hj : j = i
  · subst hj
    simpa only [Function.update_self] using hx
  · simpa only [Function.update_of_ne hj] using h j

end Watch

/-- An entry of a board on which one entry is new. -/
theorem board_entry {β : Type} {Γ : Nat → Option β} {i j : Nat} {x t : β}
    (h : Function.update Γ i (some x) j = some t) : (j = i ∧ x = t) ∨ (j ≠ i ∧ Γ j = some t) := by
  rw [Function.update_apply] at h
  split at h
  · exact Or.inl ⟨by assumption, Option.some.inj h⟩
  · exact Or.inr ⟨by assumption, h⟩

/-- An entry of a board from which one has been taken out. -/
theorem clear_entry {β : Type} {Γ : Nat → Option β} {i j : Nat} {t : β} (h : Function.update Γ i none j = some t) :
    j ≠ i ∧ Γ j = some t := by
  rw [Function.update_apply] at h
  split at h
  · cases h
  · exact ⟨by assumption, h⟩

/-! ## Calls that nobody watches -/

/-- The same watch, on a board on which a call may stand without a monitor state. -/
def Watch.partly (V : Watch S) : Watch S where
  G := Option V.G
  monitor c := (V.monitor c).partly
  first c := some (V.first c)
  last c r g := ∀ q, g = some q → V.last c r q

theorem Watch.Sound.partly {V : Watch S} (h : V.Sound) : V.partly.Sound := fun c => (h c).partly

/-- Every running call waits at an operation. -/
def World.Waits (w : S.World) : Prop := ∀ i t, w.threads i = some t → ∃ e k, t.prog = .op e k

theorem World.waits_park {w : S.World} (h : w.Waits) (i : Nat) (c : S.Call) (p : S.Program) : (w.park i c p).Waits := by
  intro j t ht
  cases p with
  | op e k =>
    have ht : Function.update w.threads i (some ⟨c, .op e k⟩) j = some t := ht
    rcases board_entry ht with ⟨-, rfl⟩ | ⟨-, ht⟩
    · exact ⟨e, k, rfl⟩
    · exact h j t ht
  | ret a => exact h j t (clear_entry (i := i) ht).2
  | throw x => exact h j t (clear_entry (i := i) ht).2

theorem World.Reaches.waits {P : S.World → S.Act → Prop} {w w' : S.World} (h : World.Reaches P w w') (h0 : w.Waits) :
    w'.Waits := by
  refine h.invariant (I := World.Waits) (fun w a w' hw _ hs => ?_) h0
  rcases World.step_cases hs with ⟨i, c, rfl, -, -, rfl⟩ | ⟨i, choice, c, e, k, r, s, rfl, -, -, rfl⟩ |
    ⟨i, t, busy, rfl, -, -, rfl⟩ | ⟨b, s, rfl, -, rfl⟩
  · exact World.waits_park (w := w.log _) hw i c _
  · exact World.waits_park (w := w.did i c e r s (k r)) hw i c _
  · exact fun j t ht => hw j t (clear_entry (i := i) ht).2
  · exact hw

/-- A board on which no running call is watched. -/
theorem Watch.shows_unwatched {V : Watch S} {w : S.World} (h : w.Waits) :
    V.partly.Shows w fun i => (w.threads i).map fun t => (t.call, none) := by
  intro i
  cases ht : w.threads i with
  | none =>
    show (w.threads i).map _ = none
    rw [ht]
    rfl
  | some t =>
    refine ⟨h i t ht, none, ?_, .unwatched⟩
    show (w.threads i).map _ = _
    rw [ht]
    rfl

/-- The state and board that `park` leaves: the call goes on, or it is over. -/
theorem Rules.park {V : Watch S} {P : S.World → S.Act → Prop} {J : S.State → List S.Event → V.Board → Prop}
    (R : Rules V P J) {w : S.World} {Γ Γ' : V.Board} {i : Nat} {c : S.Call} {p : S.Program} {g : V.G}
    (h : V.Shows w Γ) (hp : Follows (V.monitor c) (V.last c) p g) (hΓ : Γ' = Function.update Γ i (some (c, g)))
    (hJ : J w.state w.trace Γ') : ∃ Γ'', V.Shows (w.park i c p) Γ'' ∧
      J (w.park i c p).state (w.park i c p).trace Γ'' := by
  have hi : Γ' i = some (c, g) := by rw [hΓ, Function.update_self]
  have clear : Function.update Γ' i none = Function.update Γ i none := by rw [hΓ, Function.update_idem]
  cases p with
  | op e k => exact ⟨Γ', hΓ ▸ h.update (t := some ⟨c, .op e k⟩) ⟨⟨e, k, rfl⟩, g, rfl, hp⟩ rfl, hJ⟩
  | ret a => exact ⟨Function.update Γ' i none, clear ▸ h.update (t := none) rfl rfl, R.ended hJ hi hp⟩
  | throw x => exact ⟨Function.update Γ' i none, clear ▸ h.update (t := none) rfl rfl, R.ended hJ hi hp⟩

/-- What the rules keep holds after every run. -/
theorem Rules.reaches {V : Watch S} {P : S.World → S.Act → Prop} {J : S.State → List S.Event → V.Board → Prop}
    (R : Rules V P J) (sound : V.Sound) {w w' : S.World} (h : World.Reaches P w w')
    (h0 : ∃ Γ, V.Shows w Γ ∧ J w.state w.trace Γ) : ∃ Γ, V.Shows w' Γ ∧ J w'.state w'.trace Γ := by
  refine h.invariant (I := fun w => ∃ Γ, V.Shows w Γ ∧ J w.state w.trace Γ) ?_ h0
  rintro w a w' ⟨Γ, hΓ, hJ⟩ hP hs
  rcases World.step_cases hs with ⟨i, c, rfl, ht, hadm, rfl⟩ | ⟨i, choice, c, e, k, r, s, rfl, ht, hex, rfl⟩ |
    ⟨i, t, busy, rfl, ht, hm, rfl⟩ | ⟨b, s, rfl, hb, rfl⟩
  · exact R.park (w := w.log (.start i c)) (Γ := Γ) hΓ (sound c) rfl
      (R.start hΓ hJ (hΓ.none_iff.mp ht) hadm hP)
  · obtain ⟨g, hg, hmay, hf⟩ := hΓ.of_thread ht
    obtain ⟨g', hn, hJ'⟩ := R.op hΓ hJ hg ⟨k, ht⟩ hmay hex hP
    exact R.park (w := w.did i c e r s (k r)) (Γ := Γ) hΓ (hf r g' hn) rfl hJ'
  · obtain ⟨g, hg, -⟩ := hΓ.of_thread ht
    exact ⟨Function.update Γ i none, hΓ.update (t := none) rfl rfl, R.kill hΓ hJ hg hm hP⟩
  · exact ⟨Γ, hΓ, R.env (w := w) hΓ hJ hb hP⟩

end System
end Async
