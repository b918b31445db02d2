import NexusGate.Theorems.Gateway.Walk

/-! # Streams

`open_stream` is the same walk, with what a call comes to before its first token, and a stream that is drained
settles what the walk left open. -/

namespace NexusGate.Gateway.LLMRouter
open Async Redis Router
variable {self : LLMRouter} {up : Bool} {s : Scene}

/-- The first delta of a stream, the iterator over the others, and whether they were made from a whole answer. -/
abbrev Opening := StreamDelta × Script × Bool

/-- What a call comes to before its first token. -/
def firstOf (self : LLMRouter) (dep : Deployment) (a : Answer) : Except Failure Opening :=
  if (self.providers.lookup dep.provider).any Adapter.streams then
    match a.script.deltas with
    | delta :: deltas => .ok (delta, { a.script with deltas }, false)
    | [] => .error (a.script.failure.getD (.other "StopAsyncIteration" ""))
  else a.whole.map fun response => ((chunkCompletion response).1, (chunkCompletion response).2, true)

/-- The exception that a failure is met as; a stream that ends before its first token raises its own. -/
def Raised (f : Failure) (e : Exn) : Prop :=
  e = f.exn ∨ (f = .other "StopAsyncIteration" "" ∧ e = .stopAsyncIteration)

theorem nextDelta_ends {dep : Deployment} {iterator : Script} :
    Ends (answer up) (self.nextDelta dep iterator) s fun r s' => s' = s ∧
      match iterator.deltas with
      | delta :: deltas => r = .ok (delta, { iterator with deltas })
      | [] => r = .error (iterator.failure.elim .stopAsyncIteration Failure.exn) := by
  refine Ends.bind (P := fun r s' => r = .ok () ∧ s' = s) (.call ⟨rfl, rfl⟩) (fun _ s' hs => ?_) fun _ _ hx => by cases hx.1
  obtain rfl := hs.2
  obtain ⟨deltas, failure⟩ := iterator
  cases deltas with
  | cons delta deltas => exact .ret ⟨rfl, rfl⟩
  | nil =>
    cases failure with
    | none => exact .throw ⟨rfl, rfl⟩
    | some f => exact .throw ⟨rfl, rfl⟩

theorem stream_ends {dep : Deployment} {request : ChatRequest} :
    Ends (answer up) (Prog.call (Op.stream dep request)) s fun r s' => r = .ok s.answers.head.script ∧
      s' = s.spendOn dep := by
  exact .call ⟨rfl, rfl⟩

theorem injectFault_caught {dep : Deployment} : Ends (answer up) (caught (self.injectFault dep)) s fun r s' =>
    (self.faults && s.answers.head.injected) = true ∧ r = .ok (.error (injectedFault dep.name).exn) ∧
      s' = s.spend ∨
    (self.faults && s.answers.head.injected) = false ∧ r = .ok (.ok ()) ∧ s' = s := by
  refine ends_caught (injectFault_ends.mono fun r s' h => ?_)
  rcases h with ⟨hf, rfl, rfl⟩ | ⟨hf, rfl, rfl⟩
  · exact ⟨fun x hx => by (cases hx; rfl), Or.inl ⟨hf, rfl, rfl⟩⟩
  · exact ⟨fun x hx => (by cases hx), Or.inr ⟨hf, rfl, rfl⟩⟩

theorem nextDelta_caught {dep : Deployment} {iterator : Script} :
    Ends (answer up) (caught (self.nextDelta dep iterator)) s fun r s' => s' = s ∧
      match iterator.deltas with
      | delta :: deltas => r = .ok (.ok (delta, { iterator with deltas }))
      | [] => r = .ok (.error (iterator.failure.elim .stopAsyncIteration Failure.exn)) := by
  refine ends_caught (nextDelta_ends.mono fun r s' h => ?_)
  obtain ⟨rfl, h⟩ := h
  obtain ⟨deltas, failure⟩ := iterator
  cases deltas with
  | cons delta deltas =>
    cases h
    exact ⟨fun x hx => (by cases hx), rfl, rfl⟩
  | nil =>
    cases h
    refine ⟨fun x hx => ?_, rfl, rfl⟩
    cases hx
    cases failure with
    | none => rfl
    | some f => exact f.isException_exn

theorem callProvider_caught {dep : Deployment} {request : ChatRequest} :
    Ends (answer up) (caught (self.callProvider dep request)) s fun r s' =>
      r = .ok (s.answers.head.whole.mapError Failure.exn) ∧
        s' = s.spendOn dep := by
  refine ends_caught (callProvider_ends.mono fun r s' h => ?_)
  obtain ⟨rfl, rfl⟩ := h
  refine ⟨fun x hx => ?_, rfl, rfl⟩
  cases ha : s.answers.head.whole with
  | ok _ => rw [ha] at hx; cases hx
  | error f =>
    rw [ha] at hx
    cases hx
    exact f.isException_exn

theorem firstDelta_ends {dep : Deployment} {request : ChatRequest} {adapter : Adapter}
    (ha : self.providers.lookup dep.provider = some adapter) :
    Ends (answer up) (self.firstDelta dep request adapter) s fun r s' =>
      s' = (attempt self.faults self.firstOf dep s).2 ∧
        match (attempt self.faults self.firstOf dep s).1 with
        | .ok o => r = .ok (.ok o)
        | .error f => ∃ e opened, r = .ok (.error (e, opened)) ∧ Raised f e := by
  refine injectFault_caught.bind (fun r s' h => ?_) fun x s' h => ?_
  · rcases h with ⟨hf, hr, rfl⟩ | ⟨hf, hr, rfl⟩
    · cases hr
      rw [attempt, if_pos hf]
      exact .ret ⟨rfl, _, _, rfl, Or.inl rfl⟩
    · cases hr
      rw [attempt, if_neg (Bool.eq_false_iff.mp hf)]
      obtain ⟨streams⟩ := adapter
      cases streams with
      | true =>
        have hfirst : (self.providers.lookup dep.provider).any Adapter.streams = true := by rw [ha]; rfl
        rw [firstOf, if_pos hfirst]
        refine stream_ends.bind (fun iterator s₁ hs => ?_) fun _ _ hx => by cases hx.1
        obtain ⟨hs, rfl⟩ := hs
        cases hs
        refine nextDelta_caught.bind (fun o s₂ hn => ?_) fun x s₂ hn => ?_
        all_goals
          obtain ⟨rfl, hn⟩ := hn
          generalize s'.answers.head.script = script at hn
          obtain ⟨_ | ⟨delta, deltas⟩, failure⟩ := script
        · cases hn
          refine .ret ⟨rfl, _, _, rfl, ?_⟩
          cases failure with
          | none => exact Or.inr ⟨rfl, rfl⟩
          | some f => exact Or.inl rfl
        · cases hn
          exact .ret ⟨rfl, rfl⟩
        · cases hn
        · cases hn
      | false =>
        have hfirst : ¬(self.providers.lookup dep.provider).any Adapter.streams = true := by
          rw [ha]
          exact Bool.false_ne_true
        rw [firstOf, if_neg hfirst]
        refine callProvider_caught.bind (fun o s₁ hn => ?_) fun _ _ hx => by cases hx.1
        obtain ⟨ho, rfl⟩ := hn
        cases ho
        cases s'.answers.head.whole with
        | ok response => exact .ret ⟨rfl, rfl⟩
        | error f => exact .ret ⟨rfl, _, _, rfl, Or.inl rfl⟩
  · rcases h with ⟨-, hx, -⟩ | ⟨-, hx, -⟩ <;> cases hx

/-- The stream that is handed over once its first delta is there. -/
def Opened (request : ChatRequest) (dep : Deployment) (o : Opening) (attempts : List Attempt)
    (opened : OpenStream) : Prop :=
  ∃ ttftMs, opened = {
    deployment := dep, model := modelOf o.1 dep.model, attempts, first := o.1, rest := .notStarted o.2.1, ttftMs,
    promptEstimate := (request.messages.map fun m => (Text.words m.content).length).sum, synthesized := o.2.2 }

theorem closeIterator_ends {opened : Bool} :
    Ends (answer up) (closeIterator opened) s fun r s' => r = .ok () ∧ s' = s := by
  cases opened with
  | true =>
    have close : Ends (answer up) (caught (Prog.call Op.aclose)) s fun r s' => r = .ok (.ok ()) ∧ s' = s :=
      ends_caught (.call ⟨fun x hx => (by cases hx), rfl, rfl⟩)
    exact close.bind (fun _ s' hs => .ret ⟨rfl, hs.2⟩) fun _ _ hx => by cases hx.1
  | false => exact .ret ⟨rfl, rfl⟩

theorem openLoop_ends {dep : Deployment} {request : ChatRequest} {adapter : Adapter}
    (ha : self.providers.lookup dep.provider = some adapter) {left : Nat} :
    ∀ {retry : Nat} {attempts : List Attempt} {s : Scene},
    Ends (answer up) (self.openLoop dep request adapter left retry attempts) s
      (Visited dep attempts (fun _ s => s) (Opened request dep)
        (visit self.replica (self.recording up) self.faults self.firstOf dep left s)) := by
  induction left with
  | zero => exact .ret ⟨rfl, [], rfl, by simp [visit]⟩
  | succ left ih =>
    intro retry attempts s
    refine backOff_ends.bind (fun _ s' hs => ?_) fun _ _ hx => by cases hx.1
    obtain rfl := hs.2
    refine (firstDelta_ends ha).bind (fun r s₁ hr => ?_) fun x s₁ hr => ?_
    all_goals
      rw [visit]
      revert hr
      generalize attempt self.faults self.firstOf dep s' = o
      obtain ⟨o, s₂⟩ := o
      rintro ⟨rfl, hr⟩
    · cases o with
      | ok o =>
        cases hr
        refine Ends.bind (P := fun r s' => (∃ t, r = .ok t) ∧ s' = s₁) (.call ⟨⟨_, rfl⟩, rfl⟩)
          (fun t s' hs => ?_) fun _ _ hx => by cases hx.1.choose_spec
        exact .ret ⟨hs.2, [_], rfl, _, rfl, t, rfl⟩
      | error f =>
        obtain ⟨e, opened, hr, he⟩ := hr
        cases hr
        -- The iterator is closed first, whatever the failure is.
        have close : ∀ {p : Program (Option OpenStream × List Attempt)} {Q}, Ends (answer up) p s₁ Q →
            Ends (answer up) ((closeIterator opened).bind fun _ => p) s₁ Q := fun hp =>
          closeIterator_ends.bind (fun _ s₂ hs => hs.2 ▸ hp) fun _ _ hx => by cases hx.1
        rcases he with rfl | ⟨rfl, rfl⟩
        · cases f with
          | provider message retryable =>
            cases retryable with
            | true => exact close (retry_ends (fun _ => rfl) (fun _ => rfl) (fun _ => rfl) fun _ _ => ih)
            | false =>
              refine close ((goes_ends succeeded_goes).bind (fun _ s₂ hs => ?_) fun _ _ hx => by
                cases hx.1.choose_spec)
              obtain rfl := hs.2
              refine Ends.bind (P := fun r s' => (∃ t, r = .ok t) ∧ s' = _) (.call ⟨⟨_, rfl⟩, rfl⟩)
                (fun t s' hs => ?_) fun _ _ hx => by cases hx.1.choose_spec
              obtain rfl := hs.2
              exact .throw ⟨rfl, [_], rfl, rfl⟩
          | timeout => exact close (retry_ends (fun _ => rfl) (fun _ => rfl) (fun _ => rfl) fun _ _ => ih)
          | other kind message =>
            exact close (retry_ends (fun _ => rfl) (fun _ => rfl) (fun _ => rfl) fun _ _ => ih)
        · exact close (retry_ends (fun _ => rfl) (fun _ => rfl) (fun _ => rfl) fun _ _ => ih)
    · cases o with
      | ok o => cases hr
      | error f =>
        obtain ⟨e, opened, hr, -⟩ := hr
        cases hr

theorem openStream_ends {request : ChatRequest} {config : Option RoutingConfig} {chain : List Deployment}
    (hchain : self.chainOf request config = some chain) :
    Ends (answer up) (self.openStream request config) s fun r s' =>
      let o := self.walks up self.firstOf chain s
      s' = o.2.2 ∧ Report request.model [] (Opened request) o.1 o.2.1 r := by
  unfold openStream
  rw [hchain]
  refine (goes_ends prepare_goes).bind (fun _ s' hs => ?_) fun _ _ hx => by cases hx.1.choose_spec
  obtain rfl := hs.2
  refine (chain_ends self.firstOf (fun _ _ s => s) (Opened request) (fun dep => self.openWithRetries dep request)
    (fun _ opened _ => opened) (self.openFrom request) (fun _ _ _ => rfl) (fun _ _ => rfl) (fun _ => rfl)
    (fun dep chain attempts => ?_) (fun dep attempts hm => ?_) (fun dep attempts s hm => ?_)).mono
    fun r s' hr => ⟨hr.1.trans ?_, hr.2.mono ?_⟩
  · simp only [openFrom, Prog.bind_eq]
    congr 1
    funext _
    congr 1
    funext allowed
    congr 2
    funext ⟨o, as⟩
    cases o <;> rfl
  · have hnone : self.providers.lookup dep.provider = none :=
      Option.not_isSome_iff_eq_none.mp (by simpa [hasAdapter] using hm)
    unfold openWithRetries
    rw [hnone]
  · obtain ⟨adapter, ha⟩ := Option.isSome_iff_exists.mp hm
    unfold openWithRetries
    rw [ha]
    exact openLoop_ends ha
  · show settleEnding _ (self.walks up self.firstOf chain s).2.1 _ = _
    generalize (self.walks up self.firstOf chain s).2.1 = ending
    cases ending <;> rfl
  · rintro dep o attempts opened ⟨b, hb, rfl⟩
    exact hb

/-! ### The rest of a stream -/

/-- What is kept of a stream while it is relayed. -/
structure Kept (o o' : OpenStream) : Prop where
  deployment : o'.deployment = o.deployment
  attempts : o'.attempts = o.attempts

theorem Kept.refl {o : OpenStream} : Kept o o := ⟨rfl, rfl⟩

theorem Kept.trans {o o' o'' : OpenStream} (h : Kept o o') (h' : Kept o' o'') : Kept o o'' :=
  ⟨h'.deployment.trans h.deployment, h'.attempts.trans h.attempts⟩

theorem kept_absorb {o : OpenStream} {delta : StreamDelta} : Kept o (absorb o delta) := ⟨rfl, rfl⟩

theorem kept_estimate {o : OpenStream} {n : Nat} : Kept o (self.estimate o n) := by
  unfold estimate
  split <;> exact ⟨rfl, rfl⟩

theorem kept_settle {o : OpenStream} {text : String} : Kept o (self.settle o text) := by
  unfold settle
  repeat' split
  all_goals exact ⟨rfl, rfl⟩

theorem settleUp_ends {o : OpenStream} {text : String} : Ends (answer up) (self.settleUp o text) s fun out s' =>
    (∃ o', out = .ok o' ∧ Kept o o') ∧ s' = s := by
  unfold settleUp
  split
  · exact .ret ⟨⟨_, rfl, .refl⟩, rfl⟩
  · have count : Ends (answer up) (.call (Op.spent (self.settle o text).deployment.name (self.settle o text).usage
        (self.settle o text).costUsd) : Program Unit) s fun r s' => r = .ok () ∧ s' = s := .call ⟨rfl, rfl⟩
    exact count.bind (fun _ _ hs => .ret ⟨⟨_, rfl, kept_settle⟩, hs.2⟩) fun _ _ hx => by cases hx.1

theorem leave_ends {α : Type} {o : OpenStream} {text : String} {r : Except Exn α} :
    Ends (answer up) (self.leave o text r) s fun out s' => s' = s ∧ ∃ o', out = .ok (r, o') ∧ Kept o o' := by
  refine settleUp_ends.bind (fun o₁ s₁ hr => ?_) fun _ _ hx => by cases hx.1.choose_spec.1
  obtain ⟨⟨_, ho, hk⟩, rfl⟩ := hr
  cases ho
  refine Ends.bind (P := fun out s' => out = .ok (.ok ()) ∧ s' = s₁)
    (.attempt (closeIterator_ends.mono fun _ _ hr => ⟨congrArg _ hr.1, hr.2⟩)) (fun out s' hr => ?_)
    fun _ _ hx => by cases hx.1
  obtain ⟨ho, rfl⟩ := hr
  cases ho
  exact .ret ⟨rfl, _, rfl, hk.trans ⟨rfl, rfl⟩⟩

/-- The text that a list of deltas carries. -/
def contents (deltas : List StreamDelta) : String := String.join (deltas.map StreamDelta.content)

/-- How a stream ends that is relayed to its end. -/
def RelayEnd (rec : Recording) (o : OpenStream) (failure : Option Failure) (text : String) (s : Scene)
    (r : Except Exn (Option StreamDelta)) (o' : OpenStream) (s' : Scene) : Prop :=
  match failure with
  | none => r = .ok none ∧ Kept o o' ∧ s' = rec.succeeded o.deployment.name s
  | some _ => ∃ message, r = .error (.streamInterrupted message o.deployment.name text) ∧
    s' = rec.failed o.deployment.name s

theorem wait_attempt {timeout : ℚ} : Ends (answer up) (Prog.call (Op.wait timeout)).attempt s fun out s' =>
    out = .ok (.ok ()) ∧ s' = s :=
  .attempt (.call ⟨rfl, rfl⟩)

/-- The relay comes to the next delta that carries text, or to its end. -/
theorem relayLoop_ends {failure : Option Failure} {deltas : List StreamDelta} :
    ∀ {delivered : List String} {words : Nat} {o : OpenStream} {s : Scene},
    Ends (answer up) (self.relayLoop failure deltas delivered words o) s fun out s' =>
      ∃ r o', out = .ok (r, o') ∧
        ((∃ skipped delta rest words', deltas = skipped ++ delta :: rest ∧ contents skipped = "" ∧
            delta.content ≠ "" ∧ r = .ok (some delta) ∧ Kept o o' ∧ s' = s ∧
            o'.rest = .suspended ⟨rest, failure⟩ (delivered ++ [delta.content]) words') ∨
          (contents deltas = "" ∧ RelayEnd (self.recording up) o failure (String.join delivered) s r o' s')) := by
  induction deltas with
  | nil =>
    intro delivered words o s
    rw [relayLoop]
    refine wait_attempt.bind (fun out s' hr => ?_) fun _ _ hx => by cases hx.1
    obtain ⟨hr, rfl⟩ := hr
    cases hr
    cases failure with
    | none =>
      have success : Ends (answer up) (self.noteSuccess o.deployment.name).attempt s' fun out s₁ =>
          (∃ b, out = .ok (.ok b)) ∧ s₁ = (self.recording up).succeeded o.deployment.name s' :=
        .attempt (noteSuccess_ends.mono fun _ _ hr => ⟨hr.1.imp fun _ hb => congrArg _ hb, hr.2⟩)
      refine success.bind (fun out s₁ hr => ?_) fun _ _ hx => by cases hx.1.choose_spec
      obtain ⟨⟨b, hr⟩, rfl⟩ := hr
      cases hr
      refine leave_ends.mono fun out s₂ hr => ?_
      obtain ⟨rfl, o', ho, hk⟩ := hr
      exact ⟨_, o', ho, Or.inr ⟨rfl, rfl, hk, rfl⟩⟩
    | some f =>
      refine settleUp_ends.bind (fun o₁ s₁ hr => ?_) fun _ _ hx => by cases hx.1.choose_spec.1
      obtain ⟨⟨_, ho, hk⟩, rfl⟩ := hr
      cases ho
      have failure : Ends (answer up) (self.noteFailure o.deployment.name).attempt s₁ fun out s₂ =>
          (∃ b, out = .ok (.ok b)) ∧ s₂ = (self.recording up).failed o.deployment.name s₁ :=
        .attempt (noteFailure_ends.mono fun _ _ hr => ⟨hr.1.imp fun _ hb => congrArg _ hb, hr.2⟩)
      refine failure.bind (fun out s₁ hr => ?_) fun _ _ hx => by cases hx.1.choose_spec
      obtain ⟨⟨b, hr⟩, rfl⟩ := hr
      cases hr
      refine leave_ends.mono fun out s₂ hr => ?_
      obtain ⟨rfl, o', ho, -⟩ := hr
      exact ⟨_, o', ho, Or.inr ⟨rfl, _, rfl, rfl⟩⟩
  | cons delta deltas ih =>
    intro delivered words o s
    rw [relayLoop]
    refine wait_attempt.bind (fun out s' hr => ?_) fun _ _ hx => by cases hx.1
    obtain ⟨hr, rfl⟩ := hr
    cases hr
    show Ends _ (ite _ _ _) _ _
    split
    · rename_i hempty
      refine ih.mono fun out s₁ hr => ?_
      obtain ⟨r, o', rfl, ⟨skipped, d, rest, words', rfl, hs, ht, hr, hk, hs', hrest⟩ | ⟨hc, he⟩⟩ := hr
      · exact ⟨r, o', rfl, Or.inl ⟨delta :: skipped, d, rest, words', rfl, by simpa [contents, hempty] using hs, ht, hr,
          kept_absorb.trans hk, hs', hrest⟩⟩
      · refine ⟨r, o', rfl, Or.inr ⟨by simpa [contents, hempty] using hc, ?_⟩⟩
        cases failure with
        | none => exact ⟨he.1, kept_absorb.trans he.2.1, he.2.2⟩
        | some f => exact he
    · rename_i htext
      exact .ret ⟨_, _, rfl, Or.inl ⟨[], delta, deltas, _, rfl, rfl, htext, rfl,
        (kept_absorb.trans kept_estimate).trans ⟨rfl, rfl⟩, rfl, rfl⟩⟩

/-- How a stream ends that its client takes to its end. -/
def Drained (rec : Recording) (o : OpenStream) (failure : Option Failure) (text : String) (s : Scene)
    (r : Except Exn OpenStream) (s' : Scene) : Prop :=
  match failure with
  | none => (∃ o', r = .ok o' ∧ Kept o o') ∧ s' = rec.succeeded o.deployment.name s
  | some _ => ∃ message, r = .error (.streamInterrupted message o.deployment.name text) ∧
    s' = rec.failed o.deployment.name s

theorem Drained.of_kept {rec : Recording} {o o' : OpenStream} {failure : Option Failure} {text : String} {s : Scene}
    {r : Except Exn OpenStream} {s' : Scene} (hk : Kept o o') (h : Drained rec o' failure text s r s') :
    Drained rec o failure text s r s' := by
  cases failure with
  | none =>
    obtain ⟨⟨o'', hr, hk'⟩, hs⟩ := h
    exact ⟨⟨o'', hr, hk.trans hk'⟩, hk.deployment ▸ hs⟩
  | some f =>
    obtain ⟨message, hr, hs⟩ := h
    exact ⟨message, hk.deployment ▸ hr, hk.deployment ▸ hs⟩

/-- A client whose request for an item has brought the relay to its end. -/
theorem Drained.of_end {rec : Recording} {o o' : OpenStream} {failure : Option Failure} {text : String} {s s' : Scene}
    {r : Except Exn (Option StreamDelta)} (he : RelayEnd rec o failure text s r o' s') {chunks : Nat} :
    Ends (answer up) (match ((r, o') : Except Exn (Option StreamDelta) × OpenStream) with
      | (.ok (some _), o) => self.consume chunks o
      | (.ok none, o) => return o
      | (.error e, _) => .throw e) s' (Drained rec o failure text s) := by
  cases failure with
  | none =>
    obtain ⟨rfl, hk, hs⟩ := he
    exact .ret ⟨⟨o', rfl, hk⟩, hs⟩
  | some f =>
    obtain ⟨message, rfl, hs⟩ := he
    exact .throw ⟨message, rfl, hs⟩

/-- A client that asks often enough takes a stream to its end, wherever the relay stands. -/
theorem consume_ends {failure : Option Failure} {chunks : Nat} :
    ∀ {deltas : List StreamDelta} {delivered : List String} {words : Nat} {o o₁ : OpenStream} {s : Scene},
    deltas.length < chunks → self.relayNext o = self.relayLoop failure deltas delivered words o₁ → Kept o o₁ →
    Ends (answer up) (self.consume chunks o) s
      (Drained (self.recording up) o failure (String.join delivered ++ contents deltas) s) := by
  induction chunks with
  | zero => exact fun hlt => absurd hlt (Nat.not_lt_zero _)
  | succ chunks ih =>
    intro deltas delivered words o o₁ s hlt hnext hk₁
    rw [consume, hnext]
    refine relayLoop_ends.bind (fun out s' hr => ?_) fun x s' hr => ?_
    · obtain ⟨r, o', hout, ⟨skipped, d, rest, words', rfl, hs, ht, rfl, hk, rfl, hrest⟩ | ⟨hc, he⟩⟩ := hr
      · cases hout
        have hlt' : rest.length < chunks := by
          rw [List.length_append, List.length_cons] at hlt
          omega
        have hnext' : self.relayNext o' = self.relayLoop failure rest (delivered ++ [d.content]) words' o' := by
          rw [relayNext, hrest]
        refine (ih hlt' hnext' .refl).mono fun r s hr => ?_
        have htext : String.join (delivered ++ [d.content]) ++ contents rest =
            String.join delivered ++ contents (skipped ++ d :: rest) := by
          have hs : String.join (skipped.map StreamDelta.content) = "" := hs
          simp [contents, hs, String.append_assoc]
        exact (htext ▸ hr).of_kept (hk₁.trans hk)
      · cases hout
        have htext : String.join delivered ++ contents deltas = String.join delivered := by
          rw [hc, String.append_empty]
        rw [htext]
        exact (Drained.of_end he).mono fun r s hr => hr.of_kept hk₁
    · obtain ⟨r, o', hout, -⟩ := hr
      cases hout

/-- What draining a stream that has just been opened comes to. -/
theorem drain_ends {o : OpenStream} {iterator : Script} (hrest : o.rest = .notStarted iterator) :
    Ends (answer up) (self.drain o) s
      (Drained (self.recording up) o iterator.failure (o.first.content ++ contents iterator.deltas) s) := by
  rw [drain, hrest]
  have hnext : ∃ n, self.relayNext o = self.relayLoop iterator.failure iterator.deltas [o.first.content] n
      (self.estimate (absorb o o.first) n) := by
    rw [relayNext, hrest]
    exact ⟨_, rfl⟩
  obtain ⟨n, hnext⟩ := hnext
  refine (consume_ends (Nat.lt_succ_self _) hnext (kept_absorb.trans kept_estimate)).mono fun r s hr => ?_
  simpa using hr

/-- A stream that is opened and drained: what the walk and then the stream come to. -/
def Streamed (rec : Recording) (request : ChatRequest) (o : List (String × Outcome) × Ending Opening × Scene)
    (r : Except Exn OpenStream) (s : Scene) : Prop :=
  match o.2.1 with
  | .served dep first => ∃ attempts opened, attempts.map note = o.1 ∧ Opened request dep first attempts opened ∧
      Drained rec opened first.2.1.failure (first.1.content ++ contents first.2.1.deltas) o.2.2 r s
  | ending => s = o.2.2 ∧ Report request.model [] (Opened request) o.1 ending r

theorem streamed_ends {request : ChatRequest} {config : Option RoutingConfig} {chain : List Deployment}
    (hchain : self.chainOf request config = some chain) :
    Ends (answer up) ((self.openStream request config).bind self.drain) s
      (Streamed (self.recording up) request (self.walks up self.firstOf chain s)) := by
  unfold Streamed
  refine (openStream_ends hchain).bind (fun opened s' hr => ?_) fun x s' hr => ?_
  all_goals
    generalize self.walks up self.firstOf chain s = o at hr
    obtain ⟨notes, ending, s₁⟩ := o
    obtain ⟨rfl, new, hnew, hr⟩ := hr
  · cases ending with
    | served dep first =>
      obtain ⟨b, hb, ho⟩ := hr
      cases hb
      obtain ⟨ttftMs, rfl⟩ := ho
      exact (drain_ends rfl).mono fun r s hr => ⟨_, _, hnew, ⟨ttftMs, rfl⟩, hr⟩
    | _ => cases hr
  · cases ending with
    | served dep first =>
      obtain ⟨b, hb, -⟩ := hr
      cases hb
    | _ => exact ⟨rfl, new, hnew, hr⟩

/-! ### In step with whole answers -/

section
variable {α β : Type} (R : α → β → Prop)

/-- Both answer, with answers that `R` relates, or both fail in the same way. -/
def SameCall : Except Failure α → Except Failure β → Prop
  | .ok a, .ok b => R a b
  | .error x, .error y => x.kind = y.kind
  | _, _ => False

/-- Two visits to a deployment end alike. -/
def SameVisit : Visit α → Visit β → Prop
  | .answered a, .answered b => R a b
  | .rejected _, .rejected _ => True
  | .gaveUp, .gaveUp => True
  | _, _ => False

/-- Two walks of a chain end alike. -/
def SameEnding : Ending α → Ending β → Prop
  | .served dep a, .served dep' b => dep = dep' ∧ R a b
  | .rejected _, .rejected _ => True
  | .allFailed, .allFailed => True
  | .noAdapter dep, .noAdapter dep' => dep = dep'
  | _, _ => False

variable (f : Deployment → Answer → Except Failure α) (g : Deployment → Answer → Except Failure β)

/-- Every call that is still to come has the same outcome either way. -/
def InStep (answers : Stream' Answer) : Prop := ∀ n dep, SameCall R (f dep (answers.get n)) (g dep (answers.get n))

/-- The two visits note the same, end alike and leave the same. -/
structure SameVisits (o : List Outcome × Visit α × Scene) (o' : List Outcome × Visit β × Scene) : Prop where
  outcomes : o.1 = o'.1
  ending : SameVisit R o.2.1 o'.2.1
  left : o.2.2 = o'.2.2
  inStep : InStep R f g o.2.2.answers

variable {R f g} {faults : Bool} {replica : Nat} {rec : Recording}

theorem InStep.tail {answers : Stream' Answer} (h : InStep R f g answers) : InStep R f g answers.tail :=
  fun n => h (n + 1)

theorem attempt_inStep {dep : Deployment} (h : InStep R f g s.answers) :
    (attempt faults f dep s).2 = (attempt faults g dep s).2 ∧ InStep R f g (attempt faults f dep s).2.answers ∧
      SameCall R (attempt faults f dep s).1 (attempt faults g dep s).1 := by
  unfold attempt
  split
  · exact ⟨rfl, h.tail, rfl⟩
  · exact ⟨rfl, h.tail, h 0 dep⟩

/-- After a failed call both loops go on, or both stop. -/
theorem retry_inStep {dep : Deployment} {outcome : Outcome} {next : Scene → List Outcome × Visit α × Scene}
    {next' : Scene → List Outcome × Visit β × Scene} (hrec : SparesCalls rec) (hs : InStep R f g s.answers)
    (ih : ∀ s, InStep R f g s.answers → SameVisits R f g (next s) (next' s)) :
    SameVisits R f g
      (match (rec.failed dep.name s).ask replica dep.name .state with
        | (.closed, s) => (outcome :: (next s).1, (next s).2)
        | (_, s) => ([outcome], .gaveUp, s))
      (match (rec.failed dep.name s).ask replica dep.name .state with
        | (.closed, s) => (outcome :: (next' s).1, (next' s).2)
        | (_, s) => ([outcome], .gaveUp, s)) := by
  have hask : InStep R f g ((rec.failed dep.name s).ask replica dep.name .state).2.answers := by
    rw [← (hrec.failed dep.name s).answers] at hs
    exact hs
  generalize (rec.failed dep.name s).ask replica dep.name .state = o at hask
  obtain ⟨state, s'⟩ := o
  cases state with
  | closed =>
    obtain ⟨ho, he, hl, hi⟩ := ih s' hask
    exact ⟨congrArg _ ho, he, hl, hi⟩
  | opened => exact ⟨rfl, trivial, rfl, hask⟩
  | halfOpen => exact ⟨rfl, trivial, rfl, hask⟩

theorem visit_inStep (hrec : SparesCalls rec) {dep : Deployment} {left : Nat} : ∀ {s : Scene},
    InStep R f g s.answers →
    SameVisits R f g (visit replica rec faults f dep left s) (visit replica rec faults g dep left s) := by
  induction left with
  | zero => exact fun h => ⟨rfl, trivial, rfl, h⟩
  | succ left ih =>
    intro s h
    rw [visit, visit]
    obtain ⟨hsame, hs, hk⟩ := @attempt_inStep s α β R f g faults dep h
    generalize attempt faults f dep s = o at hsame hs hk
    generalize attempt faults g dep s = o' at hsame hs hk
    obtain ⟨r, s₁⟩ := o
    obtain ⟨r', s₁'⟩ := o'
    obtain rfl : s₁ = s₁' := hsame
    have hsucc : InStep R f g (rec.succeeded dep.name s₁).answers := by
      rw [← (hrec.succeeded dep.name s₁).answers] at hs
      exact hs
    have again := fun {outcome : Outcome} =>
      @retry_inStep s₁ α β R f g replica rec dep outcome _ _ hrec hs fun s hs => @ih s hs
    cases r with
    | ok a =>
      cases r' with
      | ok b => exact ⟨rfl, hk, rfl, hs⟩
      | error y => cases hk
    | error x =>
      cases r' with
      | ok b => cases hk
      | error y =>
        have hk : x.kind = y.kind := hk
        rcases x with _ | ⟨_, _ | _⟩ | _ <;> rcases y with _ | ⟨_, _ | _⟩ | _ <;>
          first | exact again | exact ⟨rfl, trivial, rfl, hsucc⟩ | cases hk

theorem walk_inStep (hrec : SparesCalls rec) {adapters : String → Bool} {chain : List Deployment} :
    ∀ {s : Scene}, InStep R f g s.answers →
      let o := walk replica rec faults f adapters chain s
      let o' := walk replica rec faults g adapters chain s
      o.1 = o'.1 ∧ SameEnding R o.2.1 o'.2.1 ∧ o.2.2 = o'.2.2 := by
  induction chain with
  | nil => exact fun _ => ⟨rfl, trivial, rfl⟩
  | cons dep chain ih =>
    intro s h
    rw [walk, walk]
    have hask : InStep R f g ((s.create replica dep.name).ask replica dep.name .allowRequest).2.answers := h
    generalize (s.create replica dep.name).ask replica dep.name .allowRequest = o at hask
    obtain ⟨allowed, s₁⟩ := o
    cases allowed with
    | false =>
      obtain ⟨hn, he, hl⟩ := ih hask
      exact ⟨congrArg _ hn, he, hl⟩
    | true =>
      cases adapters dep.provider with
      | false => exact ⟨rfl, rfl, rfl⟩
      | true =>
        simp only [if_true]
        obtain ⟨ho, he, hl, hi⟩ := @visit_inStep α β R f g faults replica rec hrec dep (dep.maxRetries + 1) s₁ hask
        generalize visit replica rec faults f dep (dep.maxRetries + 1) s₁ = v at ho he hl hi
        generalize visit replica rec faults g dep (dep.maxRetries + 1) s₁ = v' at ho he hl hi
        obtain ⟨outcomes, ending, s₂⟩ := v
        obtain ⟨outcomes', ending', s₂'⟩ := v'
        obtain rfl : outcomes = outcomes' := ho
        obtain rfl : s₂ = s₂' := hl
        cases ending with
        | answered a =>
          cases ending' with
          | answered b => exact ⟨rfl, ⟨rfl, he⟩, rfl⟩
          | _ => cases he
        | rejected m =>
          cases ending' with
          | rejected m' => exact ⟨rfl, trivial, rfl⟩
          | _ => cases he
        | gaveUp =>
          cases ending' with
          | gaveUp =>
            obtain ⟨hn, he, hl⟩ := ih hi
            exact ⟨congrArg _ hn, he, hl⟩
          | _ => cases he

end

/-- Before its first token every call fares as the call for a whole answer does, and a stream that answers goes
    on to a successful end. -/
def SameCalls (self : LLMRouter) (s : Scene) : Prop :=
  InStep (fun _ o => o.2.1.failure = none) wholeAnswer self.firstOf s.answers

/-- The same deployments with the same outcomes, the same deployment that served, or the same exception. -/
def SameResult : Except Exn RoutedResult → Except Exn OpenStream → Prop
  | .ok a, .ok b => a.deployment = b.deployment ∧ a.attempts.map note = b.attempts.map note
  | .error (.clientRequest _ as), .error (.clientRequest _ bs) => as.map note = bs.map note
  | .error (.allProvidersFailed route as), .error (.allProvidersFailed route' bs) =>
    route = route' ∧ as.map note = bs.map note
  | .error (.unknownModel message), .error (.unknownModel message') => message = message'
  | _, _ => False

/-- Two walks in step end requests in step. -/
theorem sameResult_of_walk {rec : Recording} {request : ChatRequest} {o : List (String × Outcome) × Ending ProviderResponse × Scene}
    {o' : List (String × Outcome) × Ending Opening × Scene} {r : Except Exn RoutedResult} {r' : Except Exn OpenStream}
    {s s' : Scene}
    (hwhole : s = o.2.1.settle rec o.2.2 ∧ Report request.model [] (fun dep response attempts result =>
      result = { response, deployment := dep, attempts, costUsd := self.computeCost dep response.usage }) o.1 o.2.1 r)
    (hstream : Streamed rec request o' r' s')
    (hends : o.1 = o'.1 ∧ SameEnding (fun _ (first : Opening) => first.2.1.failure = none) o.2.1 o'.2.1 ∧
      o.2.2 = o'.2.2) : SameResult r r' ∧ s = s' := by
  obtain ⟨notes, ending, s₁⟩ := o
  obtain ⟨notes', ending', s₁'⟩ := o'
  obtain ⟨hn, he, hl⟩ := hends
  obtain rfl : notes = notes' := hn
  obtain rfl : s₁ = s₁' := hl
  obtain ⟨rfl, new, hnew, hr⟩ := hwhole
  cases ending with
  | served dep response =>
    cases ending' with
    | served dep' first =>
      obtain ⟨rfl, hnone⟩ : dep = dep' ∧ first.2.1.failure = none := he
      obtain ⟨result, rfl, hres⟩ := hr
      obtain ⟨attempts, opened, hattempts, ⟨ttftMs, rfl⟩, hd⟩ := hstream
      rw [hnone] at hd
      obtain ⟨⟨o', rfl, hk⟩, rfl⟩ := hd
      refine ⟨⟨?_, ?_⟩, rfl⟩
      · rw [hres, hk.deployment]
      · rw [hres, hk.attempts]
        exact hnew.trans hattempts.symm
    | _ => cases he
  | rejected m =>
    cases ending' with
    | rejected m' =>
      obtain ⟨rfl, new', hnew', hr'⟩ := hstream
      rw [hr, hr']
      exact ⟨hnew.trans hnew'.symm, rfl⟩
    | _ => cases he
  | allFailed =>
    cases ending' with
    | allFailed =>
      obtain ⟨rfl, new', hnew', hr'⟩ := hstream
      rw [hr, hr']
      exact ⟨⟨rfl, hnew.trans hnew'.symm⟩, rfl⟩
    | _ => cases he
  | noAdapter dep =>
    cases ending' with
    | noAdapter dep' =>
      obtain rfl : dep = dep' := he
      obtain ⟨rfl, new', hnew', hr'⟩ := hstream
      rw [hr, hr']
      exact ⟨rfl, rfl⟩
    | _ => cases he

/-- A stream that is opened and drained is routed as a whole answer is, and leaves the same breakers. -/
theorem drained_stream_routes_as_complete (request : ChatRequest)
    (config : Option RoutingConfig) (reachable : Bool) (s : Scene) (hs : self.SameCalls s) :
    let whole := (self.complete request config).run (answer reachable) s
    let streamed := ((self.openStream request config).bind self.drain).run (answer reachable) s
    SameResult whole.1 streamed.1 ∧ whole.2.breakers self.replica = streamed.2.breakers self.replica := by
  show SameResult ((self.complete request config).run (answer reachable) s).1 _ ∧ _
  cases hchain : self.chainOf request config with
  | none =>
    have hs : self.complete request config = .throw (.unknownModel request.model) := by
      unfold complete
      rw [hchain]
    have ho : self.openStream request config = .throw (.unknownModel request.model) := by
      unfold openStream
      rw [hchain]
    rw [hs, ho]
    exact ⟨rfl, rfl⟩
  | some chain =>
    have hwhole := @complete_ends self reachable s request config chain hchain
    have hstream := @streamed_ends self reachable s request config chain hchain
    have hstep : InStep (fun _ o => o.2.1.failure = none) wholeAnswer self.firstOf
        (self.prepared reachable chain s).answers := by
      have hspares : Spares s (self.prepared reachable chain s) := prepare_goes.2
      rw [hspares.answers]
      exact hs
    have hsame := sameResult_of_walk hwhole hstream (walk_inStep recording_spares hstep)
    exact ⟨hsame.1, congrArg (fun s : Scene => s.breakers self.replica) hsame.2⟩

namespace Fallback

theorem sameCalls : router.SameCalls scene := by
  intro n dep
  unfold firstOf
  cases n with
  | zero => split <;> rfl
  | succ n => split <;> rfl

/-- The chain of two, whole and streamed. -/
theorem stream_falls_back : let whole := (router.complete request none).run (answer false) scene
    let streamed := ((router.openStream request none).bind router.drain).run (answer false) scene
    SameResult whole.1 streamed.1 ∧ whole.2.breakers 0 = streamed.2.breakers 0 :=
  drained_stream_routes_as_complete request none false scene sameCalls

end Fallback
end NexusGate.Gateway.LLMRouter
