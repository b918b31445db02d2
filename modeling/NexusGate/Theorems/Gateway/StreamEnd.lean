import NexusGate.Gateway.Pool
import NexusGate.Theorems.Gateway.Walk

/-! # The end of a stream

A stream that was opened is used up to some point and then closed. Its ledger says whether the provider's iterator
has been closed, and what the stream has added to the counters of tokens and cost. -/

namespace NexusGate.Gateway.Router
open Async Redis

/-- What a stream has been charged, and whether it has been closed. -/
structure Ledger where
  closed : Bool := false
  spent : List (String × Usage × ℚ) := []

/-- The ledger is kept by what the generator of a stream does; the counters themselves never fail. -/
def bookkeeper : Monitor Op Op.Reply Exn Ledger where
  may _ _ := True
  next g e r g' := match e with
    | .aclose => g' = { g with closed := true }
    | .spent name usage costUsd => (∃ a, r = .ok a) ∧ g' = { g with spent := (name, usage, costUsd) :: g.spent }
    | .gauge _ _ _ => (∃ a, r = .ok a) ∧ g' = g
    | _ => g' = g

/-- The operations with which an outcome is recorded. -/
def Op.records : Op → Prop
  | .redis _ | .breaker _ _ _ | .gauge _ _ _ => True
  | _ => False

/-- What does not concern the ledger leaves it as it is. -/
theorem records_follows {α : Type} {p : Program α} (hp : Hands Op.records p) {g : Ledger} :
    Follows bookkeeper (fun _ g' => g' = g) p g :=
  hp.follows (I := fun g' => g' = g) (fun _ _ _ _ => trivial) (fun g₁ e r g₂ h he hn => by
    cases e with
    | redis c => exact (show g₂ = g₁ from hn).trans h
    | breaker replica name m => exact (show g₂ = g₁ from hn).trans h
    | gauge replica name up => exact hn.2.trans h
    | _ => exact he.elim) (fun _ _ h => h) rfl

section
variable {cluster : ClusterBreakers} {replica : Nat} {name : String}

theorem publishOpen_records : Hands Op.records (cluster.publishOpen name) :=
  (hands_caught (pipeline_hands fun _ _ => trivial)).bind fun _ => trivial

theorem recordFailure_records : Hands Op.records (cluster.recordFailure replica name) := by
  refine (Hands.call trivial).bind fun opened => ?_
  cases opened with
  | true => exact publishOpen_records.bind fun _ => trivial
  | false =>
    refine (hands_caught (pipeline_hands fun _ _ => trivial)).bind fun o => ?_
    split
    · rename_i count _
      have adopt : Hands Op.records (breaker replica name (.adopt .opened count)) := Hands.call trivial
      show Hands _ (ite _ _ _)
      split
      · exact publishOpen_records.bind fun _ => adopt.bind fun _ => trivial
      · trivial
    · trivial

theorem recordSuccess_records : Hands Op.records (cluster.recordSuccess replica name) :=
  (Hands.call trivial).bind fun _ => (hands_caught (Hands.call trivial)).bind fun _ => trivial

end
end NexusGate.Gateway.Router

namespace NexusGate.Gateway.LLMRouter
open Async Redis Router
variable {self : LLMRouter} {opened : OpenStream} {g : Ledger}

theorem noteFailure_records {name : String} : Hands Op.records (self.noteFailure name) := by
  have hfailed : Hands Op.records (self.failed name) := by
    unfold failed
    split
    · exact recordFailure_records
    · exact Hands.call trivial
  refine hfailed.bind fun opened => ?_
  cases opened with
  | true => exact Hands.call trivial
  | false => trivial

theorem noteSuccess_records {name : String} : Hands Op.records (self.noteSuccess name) := by
  have hsucceeded : Hands Op.records (self.succeeded name) := by
    unfold succeeded
    split
    · exact recordSuccess_records
    · exact Hands.call trivial
  exact hsucceeded.bind fun _ => Hands.call trivial

/-! ### Using a stream and closing it -/

/-- The client asks for `items` items, whatever comes of it, and closes the stream. -/
def useAndClose (self : LLMRouter) : Nat → OpenStream → Program OpenStream
  | 0, opened => do
    let (_, opened) ← self.relayClose opened
    return opened
  | items + 1, opened => do
    let (_, opened) ← self.relayNext opened
    useAndClose self items opened

/-- Nothing has been counted for the stream. -/
structure Unpriced (opened : OpenStream) (g : Ledger) : Prop where
  unsettled : opened.settled = false
  spent : g.spent = []

/-- The stream has been counted once, as what it has cost. -/
structure Priced (opened : OpenStream) (g : Ledger) : Prop where
  settled : opened.settled = true
  spent : g.spent = [(opened.deployment.name, opened.usage, opened.costUsd)]

/-- The stream has been counted once, and the iterator of its provider is closed. -/
structure Over (opened : OpenStream) (g : Ledger) : Prop extends Priced opened g where
  finished : opened.rest = .finished
  closed : g.closed = true

/-- A stream that is being relayed, or is over. -/
def Relayed (opened : OpenStream) (g : Ledger) : Prop :=
  (Unpriced opened g ∧ ∃ iterator delivered words, opened.rest = .suspended iterator delivered words) ∨ Over opened g

/-! ### The generator -/

theorem settleUp_follows {text : String} (h : Unpriced opened g ∨ Priced opened g) :
    Follows bookkeeper (fun r g' => ∃ o, r = .ok o ∧ Priced o g') (self.settleUp opened text) g := by
  unfold settleUp
  rcases h with h | h
  · rw [if_neg (by rw [h.unsettled]; exact Bool.false_ne_true)]
    refine Follows.bind_iff.mpr (Follows.call_iff.mpr ⟨trivial, fun r g' hn => ?_⟩)
    obtain ⟨⟨a, rfl⟩, rfl⟩ := hn
    refine ⟨_, rfl, ?_, by rw [h.spent]⟩
    unfold settle
    rw [if_neg (by rw [h.unsettled]; exact Bool.false_ne_true)]
    split <;> rfl
  · rw [if_pos h.settled]
    exact ⟨opened, rfl, h⟩

theorem closeIterator_follows : Follows bookkeeper (fun _ g' => g' = { g with closed := true }) (closeIterator true) g := by
  refine Follows.bind_iff.mpr (Follows.bind_iff.mpr (Follows.attempt_iff.mpr (Follows.call_iff.mpr ⟨trivial, fun r g' hn => ?_⟩)))
  cases r with
  | ok _ => exact hn
  | error x =>
    show Follows _ _ (ite _ _ _) _
    split
    · exact hn
    · exact hn

theorem leave_follows {α : Type} {text : String} {r : Except Exn α} (h : Unpriced opened g ∨ Priced opened g) :
    Follows bookkeeper (fun out g' => ∃ r' o, out = .ok (r', o) ∧ Over o g') (self.leave opened text r) g := by
  refine (settleUp_follows h).bind (fun o g₁ ho => ?_) fun x g₁ ho => by obtain ⟨_, hx, -⟩ := ho; cases hx
  obtain ⟨_, hr, ho⟩ := ho
  cases hr
  refine Follows.bind_iff.mpr (Follows.attempt_iff.mpr (closeIterator_follows.mono fun r' g₂ hg => ?_))
  cases hg
  cases r' with
  | ok _ => exact ⟨_, _, rfl, ⟨ho.settled, ho.spent⟩, rfl, rfl⟩
  | error x => exact ⟨_, _, rfl, ⟨ho.settled, ho.spent⟩, rfl, rfl⟩

theorem relayEnd_follows {failure : Option Failure} {delivered : List String} (h : Unpriced opened g) :
    Follows bookkeeper (fun out g' => ∃ r o, out = .ok (r, o) ∧ Over o g') (self.relayEnd failure delivered opened) g := by
  cases failure with
  | none =>
    refine Follows.bind_iff.mpr (Follows.attempt_iff.mpr ((records_follows noteSuccess_records).mono fun r g₁ hg => ?_))
    cases hg
    cases r with
    | ok _ => exact leave_follows (Or.inl h)
    | error x => exact leave_follows (Or.inl h)
  | some failure =>
    refine (settleUp_follows (Or.inl h)).bind (fun o g₁ ho => ?_) fun x g₁ ho => by obtain ⟨_, hx, -⟩ := ho; cases hx
    obtain ⟨_, hr, ho⟩ := ho
    cases hr
    have ho : ∀ error, Priced (interrupted o error) g₁ := fun _ => ⟨ho.settled, ho.spent⟩
    refine Follows.bind_iff.mpr (Follows.attempt_iff.mpr ((records_follows noteFailure_records).mono fun r g₂ hg => ?_))
    cases hg
    cases r with
    | ok _ => exact leave_follows (Or.inr (ho _))
    | error x => exact leave_follows (Or.inr (ho _))

theorem estimate_settled {words : Nat} : (self.estimate opened words).settled = opened.settled := by
  unfold estimate
  split <;> rfl

theorem relayLoop_follows {failure : Option Failure} {deltas : List StreamDelta} :
    ∀ {delivered : List String} {words : Nat} {opened : OpenStream}, Unpriced opened g →
    Follows bookkeeper (fun out g' => ∃ r o, out = .ok (r, o) ∧ Relayed o g')
      (self.relayLoop failure deltas delivered words opened) g := by
  induction deltas with
  | nil =>
    intro delivered words opened h
    refine Follows.bind_iff.mpr (Follows.attempt_iff.mpr (Follows.call_iff.mpr ⟨trivial, fun r g₁ hg => ?_⟩))
    cases (show g₁ = g from hg)
    cases r with
    | ok _ => exact (relayEnd_follows h).mono fun out g' ⟨r, o, hout, ho⟩ => ⟨r, o, hout, Or.inr ho⟩
    | error x => exact (leave_follows (Or.inl h)).mono fun out g' ⟨r, o, hout, ho⟩ => ⟨r, o, hout, Or.inr ho⟩
  | cons delta deltas ih =>
    intro delivered words opened h
    refine Follows.bind_iff.mpr (Follows.attempt_iff.mpr (Follows.call_iff.mpr ⟨trivial, fun r g₁ hg => ?_⟩))
    cases (show g₁ = g from hg)
    cases r with
    | ok _ =>
      have habsorbed : Unpriced (absorb opened delta) g := ⟨h.unsettled, h.spent⟩
      show Follows _ _ (ite _ _ _) _
      split
      · exact ih habsorbed
      · exact ⟨_, _, rfl, Or.inl ⟨⟨estimate_settled.trans habsorbed.unsettled, h.spent⟩, _, _, _, rfl⟩⟩
    | error x => exact (leave_follows (Or.inl h)).mono fun out g' ⟨r, o, hout, ho⟩ => ⟨r, o, hout, Or.inr ho⟩

/-- An item is asked for. -/
theorem relayNext_follows (h : Unpriced opened g ∧ opened.rest ≠ .finished ∨ Over opened g) :
    Follows bookkeeper (fun out g' => ∃ r o, out = .ok (r, o) ∧ Relayed o g') (self.relayNext opened) g := by
  unfold relayNext
  rcases h with ⟨h, hlive⟩ | h
  · split
    · exact relayLoop_follows ⟨estimate_settled.trans h.unsettled, h.spent⟩
    · exact relayLoop_follows h
    · exact absurd ‹_› hlive
  · rw [h.finished]
    exact ⟨_, _, rfl, Or.inr h⟩

/-- A stream that has been asked for an item is closed. -/
theorem relayClose_follows (h : Relayed opened g) :
    Follows bookkeeper (fun out g' => ∃ r o, out = .ok (r, o) ∧ Over o g') (self.relayClose opened) g := by
  unfold relayClose
  rcases h with ⟨h, iterator, delivered, words, hrest⟩ | h
  · rw [hrest]
    exact leave_follows (Or.inl h)
  · rw [h.finished]
    exact ⟨_, _, rfl, h⟩

theorem relayed_useAndClose : ∀ {items : Nat} {opened : OpenStream} {g : Ledger}, Relayed opened g →
    Follows bookkeeper (fun r g' => ∃ o, r = .ok o ∧ Over o g') (self.useAndClose items opened) g
  | 0, opened, g, h => by
    refine (relayClose_follows h).bind (fun out g' ho => ?_) fun x g' ho => by obtain ⟨_, _, hx, -⟩ := ho; cases hx
    obtain ⟨_, _, hout, ho⟩ := ho
    cases hout
    exact ⟨_, rfl, ho⟩
  | items + 1, opened, g, h => by
    have h : Unpriced opened g ∧ opened.rest ≠ .finished ∨ Over opened g := by
      rcases h with ⟨h, _, _, _, hrest⟩ | h
      · exact Or.inl ⟨h, by rw [hrest]; exact Relay.noConfusion⟩
      · exact Or.inr h
    refine (relayNext_follows h).bind (fun out g' ho => ?_) fun x g' ho => by obtain ⟨_, _, hx, -⟩ := ho; cases hx
    obtain ⟨_, _, hout, ho⟩ := ho
    cases hout
    exact relayed_useAndClose ho

/-! ### The streams that are handed over -/

/-- Whatever is answered, a value that is returned is as `Q` says. -/
def Yields {α : Type} (Q : α → Prop) (p : Program α) : Prop :=
  Follows (⟨fun _ _ => True, fun _ _ _ _ => True⟩ : Monitor Op Op.Reply Exn Unit) (fun r _ => ∀ a, r = .ok a → Q a) p ()

theorem Yields.ret {α : Type} {Q : α → Prop} {a : α} (h : Q a) : Yields Q (.ret a) := fun b hb => by
  cases hb
  exact h

theorem Yields.throw {α : Type} {Q : α → Prop} {x : Exn} : Yields Q (.throw x) := fun b hb => by cases hb

/-- It is decided by what comes last. -/
theorem Yields.bind {α β : Type} {Q : β → Prop} {p : Program α} {f : α → Program β} (hf : ∀ a, Yields Q (f a)) :
    Yields Q (p.bind f) := by
  induction p with
  | ret a => exact hf a
  | throw x => exact Yields.throw
  | op e k ih => exact ⟨trivial, fun r _ _ => ih r⟩

/-- A stream that is handed over has not been asked for anything. -/
structure Fresh (opened : OpenStream) : Prop where
  notStarted : ∃ iterator, opened.rest = .notStarted iterator
  unsettled : opened.settled = false

theorem openLoop_yields {dep : Deployment} {request : ChatRequest} {adapter : Adapter} {left : Nat} :
    ∀ {retry : Nat} {attempts : List Attempt},
    Yields (fun out => ∀ o, out.1 = some o → Fresh o) (self.openLoop dep request adapter left retry attempts) := by
  induction left with
  | zero => exact Yields.ret fun o ho => by cases ho
  | succ left ih =>
    intro retry attempts
    have again : ∀ {state : BreakerState} {attempts : List Attempt},
        Yields (fun out : Option OpenStream × List Attempt => ∀ o, out.1 = some o → Fresh o)
          (if state = .closed then self.openLoop dep request adapter left (retry + 1) attempts
          else return (none, attempts)) := by
      intro state attempts
      split
      · exact ih
      · exact Yields.ret fun o ho => by cases ho
    refine Yields.bind fun _ => Yields.bind fun r => ?_
    cases r with
    | ok first =>
      refine Yields.bind fun t => Yields.ret fun o ho => ?_
      cases ho
      exact ⟨⟨_, rfl⟩, rfl⟩
    | error e =>
      obtain ⟨e, opened⟩ := e
      cases e with
      | providerError message retryable =>
        cases retryable with
        | true => exact Yields.bind fun _ => Yields.bind fun _ => Yields.bind fun _ => Yields.bind fun _ => again
        | false => exact Yields.bind fun _ => Yields.bind fun _ => Yields.bind fun _ => Yields.throw
      | _ => exact Yields.bind fun _ => Yields.bind fun _ => Yields.bind fun _ => Yields.bind fun _ => again

theorem openFrom_yields {request : ChatRequest} {chain : List Deployment} : ∀ {attempts : List Attempt},
    Yields Fresh (self.openFrom request chain attempts) := by
  induction chain with
  | nil => exact Yields.throw
  | cons dep chain ih =>
    intro attempts
    refine Yields.bind fun _ => Yields.bind fun allowed => ?_
    show Yields _ (ite _ _ _)
    split
    · have hopened : Yields (fun out => ∀ o, out.1 = some o → Fresh o) (self.openWithRetries dep request attempts) := by
        unfold openWithRetries
        split
        · exact Yields.throw
        · exact openLoop_yields
      refine Follows.bind hopened (fun out _ hout => ?_) fun _ _ _ b hb => by cases hb
      obtain ⟨o, attempts⟩ := out
      cases o with
      | none => exact ih
      | some o => exact Yields.ret (hout _ rfl o rfl)
    · exact ih

theorem openStream_yields {request : ChatRequest} {config : Option RoutingConfig} :
    Yields Fresh (self.openStream request config) := by
  unfold openStream
  split
  · exact Yields.throw
  · exact Yields.bind fun _ => openFrom_yields

/-- The stream comes from `open_stream`, whatever its surroundings are. -/
def Returned (self : LLMRouter) (request : ChatRequest) (config : Option RoutingConfig) (opened : OpenStream) : Prop :=
  ∃ (σ : Type) (h : Handler Op Op.Reply Exn σ) (s : σ), ((self.openStream request config).run h s).1 = .ok opened

theorem Returned.fresh {request : ChatRequest} {config : Option RoutingConfig}
    (h : self.Returned request config opened) : Fresh opened := by
  obtain ⟨σ, h, s, hr⟩ := h
  exact Follows.ends (h := h) (fun _ _ => trivial) (@openStream_yields self request config) s opened hr

/-- However the stream is used up, once closed it has been counted once, as what it has cost, and the iterator of
    its provider is closed. -/
def ClosedAndPricedOnce (self : LLMRouter) (items : Nat) (opened : OpenStream) : Prop :=
  Follows bookkeeper (fun r g => ∃ o, r = .ok o ∧ g.closed = true ∧
    g.spent = [(o.deployment.name, o.usage, o.costUsd)]) (self.useAndClose items opened) {}

/-- A generator that has not started runs none of its code when it is closed. -/
theorem unasked_not_closed {iterator : Script} (hrest : opened.rest = .notStarted iterator) :
    ¬self.ClosedAndPricedOnce 0 opened := by
  intro hone
  unfold ClosedAndPricedOnce useAndClose relayClose at hone
  rw [hrest] at hone
  obtain ⟨o, -, hclosed, -⟩ := hone
  cases hclosed

/-- A stream is closed and priced once if and only if an item was asked for before it was closed. -/
theorem closedAndPricedOnce_iff {request : ChatRequest} {config : Option RoutingConfig} {items : Nat}
    (h : self.Returned request config opened) : self.ClosedAndPricedOnce items opened ↔ 0 < items := by
  obtain ⟨iterator, hrest⟩ := h.fresh.notStarted
  cases items with
  | zero => exact iff_of_false (unasked_not_closed hrest) (Nat.lt_irrefl 0)
  | succ items =>
    refine iff_of_true ?_ (Nat.succ_pos items)
    have hstart : Unpriced opened {} ∧ opened.rest ≠ .finished ∨ Over opened {} :=
      Or.inl ⟨⟨h.fresh.unsettled, rfl⟩, by rw [hrest]; exact Relay.noConfusion⟩
    refine (relayNext_follows hstart).bind (fun out g' ho => ?_) fun x g' ho => by obtain ⟨_, _, hx, -⟩ := ho; cases hx
    obtain ⟨_, _, hout, ho⟩ := ho
    cases hout
    refine (relayed_useAndClose ho).mono fun r g' hr => ?_
    obtain ⟨o, hr, hover⟩ := hr
    exact ⟨o, hr, hover.closed, hover.spent⟩

/-! ### A client that leaves after the first chunk -/

namespace FirstChunkOnly
open Fallback (router request breaker)

/-- Every provider streams two words. -/
def scene : Scene where
  breakers := fun _ _ => breaker
  ticks := fun _ => 0
  monotonic := fun _ => 0
  answers := fun _ => { whole := .error .timeout, script := ⟨[{ content := "hello " }, { content := "there" }], none⟩ }

theorem returned : ∃ opened, router.Returned request none opened ∧ ∃ iterator, opened.rest = .notStarted iterator := by
  have hopened : ∃ opened, ((router.openStream request none).run (answer false) scene).1 = .ok opened := ⟨_, rfl⟩
  obtain ⟨opened, hopened⟩ := hopened
  have hreturned : router.Returned request none opened := ⟨Scene, answer false, scene, hopened⟩
  exact ⟨opened, hreturned, hreturned.fresh.notStarted⟩

/-- The stream is closed before anything was asked of it: it is neither closed at the provider nor counted. -/
theorem not_closedAndPricedOnce : ∃ opened, router.Returned request none opened ∧ ¬router.ClosedAndPricedOnce 0 opened := by
  obtain ⟨opened, hreturned, iterator, hrest⟩ := returned
  exact ⟨opened, hreturned, unasked_not_closed hrest⟩

theorem asked_once : ∃ opened, router.Returned request none opened ∧ router.ClosedAndPricedOnce 1 opened := by
  obtain ⟨opened, hreturned, -⟩ := returned
  exact ⟨opened, hreturned, (closedAndPricedOnce_iff hreturned).mpr Nat.one_pos⟩

end FirstChunkOnly
end NexusGate.Gateway.LLMRouter
