import NexusGate.Gateway.Turn

/-! # What a request is recorded as

A request records its outcome at one of several exits, and what it did before decides whether that exit is the
right one. The run of a request keeps `Fits`: were the outcome recorded now, it would be right exactly if nothing
has gone wrong that the table is not to blame for. -/

namespace NexusGate.Gateway.Chat
open Async Cache Rollout

/-! ### What a request did -/

/-- The outcome that is recorded. -/
def Done.outcome (d : Done) : Option (Variant × Bool) :=
  match d.op with
  | .record variant ok => some (variant, ok)
  | _ => none

/-- The outcomes that were recorded. -/
def recorded (log : List Done) : List (Variant × Bool) := log.filterMap Done.outcome

/-- No deployment answered, or an adapter is not registered. -/
def Exn.unserved : Exn → Bool
  | .raised (.allProvidersFailed _ _) | .raised (.unknownModel _) => true
  | _ => false

/-- The stream broke after its first word. -/
def Exn.interruption : Exn → Bool
  | .raised (.streamInterrupted _ _ _) => true
  | _ => false

/-- The table failed the request. -/
def Done.failed : Done → Bool
  | ⟨.complete _ _, .error e⟩ | ⟨.openStream _ _, .error e⟩ => e.unserved
  | ⟨.next _, .ok (.error e, _)⟩ => (Exn.raised e).interruption
  | _ => false

/-- Something went wrong, or the client went away, and the table is not to blame. -/
def Done.spoils : Done → Bool
  | ⟨.complete _ _, .error e⟩ | ⟨.openStream _ _, .error e⟩ => !e.unserved
  | ⟨.next _, .ok (.error e, _)⟩ => !(Exn.raised e).interruption
  | ⟨.lookup _ _, .error e⟩ | ⟨.store _ _ _, .error e⟩ => !e.isException
  | ⟨.hangUp, _⟩ | ⟨.meterLater _ _, _⟩ => true
  | ⟨.record _ _, _⟩ => false
  | ⟨_, .error _⟩ => true
  | _ => false

/-- One outcome is recorded, for this table, and it is an error if and only if the table failed the request. -/
structure Accounted (variant : Variant) (missing : Bool) (log : List Done) : Prop where
  once : ∃ ok, recorded log = [(variant, ok)]
  blame : ∀ ok, (variant, ok) ∈ recorded log → (ok = false ↔ missing = true ∨ log.any Done.failed = true)

/-- Nothing spoils the accounting before the outcome is recorded. -/
def Orderly : List Done → Prop
  | [] => True
  | d :: log => (d.spoils = true → recorded log ≠ []) ∧ Orderly log

instance : DecidablePred Orderly := go where
  go : (log : List Done) → Decidable (Orderly log)
    | [] => .isTrue trivial
    | _ :: log => @instDecidableAnd _ _ inferInstance (go log)

/-! ### The run of a request -/

section Log
variable {variant : Variant} {ok : Bool} {log : List Done} {d : Done}

/-- Nothing is recorded, and `ok` would be the right outcome, or is a wrong one. -/
structure Fits (ok : Bool) (log : List Done) : Prop where
  unrecorded : recorded log = []
  right : Orderly log → (ok = false ↔ log.any Done.failed = true)
  wrong : ¬Orderly log → ok = false ∧ log.any Done.failed = false

/-- Nothing will be recorded as it should be. -/
structure Lost (log : List Done) : Prop where
  unrecorded : recorded log = []
  spoilt : ¬Orderly log

/-- The condition decides whether the accounting is right. -/
def Settled (variant : Variant) (log : List Done) : Prop :=
  recorded log ≠ [] ∧ (Accounted variant false log ↔ Orderly log)

theorem recorded_cons (h : d.outcome = none) : recorded (d :: log) = recorded log := List.filterMap_cons_none h

theorem Fits.nil : Fits true [] := ⟨rfl, fun _ => by simp, fun h => absurd trivial h⟩

/-- Something goes well. -/
theorem Fits.well (h : Fits ok log) (hd : d.outcome = none) (hf : d.failed = false) (hs : d.spoils = false) : Fits ok (d :: log) where
  unrecorded := (recorded_cons hd).trans h.unrecorded
  right ho := by
    rw [List.any_cons, hf, Bool.false_or]
    exact h.right ho.2
  wrong ho := by
    rw [List.any_cons, hf, Bool.false_or]
    exact h.wrong fun ho' => ho ⟨fun hs' => absurd (hs.symm.trans hs') Bool.false_ne_true, ho'⟩

/-- Something goes wrong. -/
theorem Fits.badly (h : Fits true log) (hd : d.outcome = none) (hd' : d.failed = !d.spoils) : Fits false (d :: log) where
  unrecorded := (recorded_cons hd).trans h.unrecorded
  right ho := by
    have hs : d.spoils = false := Bool.eq_false_iff.mpr fun hs => ho.1 hs h.unrecorded
    rw [List.any_cons, hd', hs]
    simp
  wrong ho := by
    have hlog : Orderly log := by_contra fun hlog => by cases (h.wrong hlog).1
    have hs : d.spoils = true := by
      by_contra hs
      exact ho ⟨fun hs' => absurd hs' hs, hlog⟩
    have hnone : log.any Done.failed = false := Bool.eq_false_iff.mpr fun hf => by cases (h.right hlog).mpr hf
    rw [List.any_cons, hd', hs, hnone]
    exact ⟨rfl, rfl⟩

theorem Fits.spoilt (h : Fits ok log) (hd : d.outcome = none) (hs : d.spoils = true) : Lost (d :: log) :=
  ⟨(recorded_cons hd).trans h.unrecorded, fun ho => ho.1 hs h.unrecorded⟩

theorem Lost.more (h : Lost log) (hd : d.outcome = none) : Lost (d :: log) :=
  ⟨(recorded_cons hd).trans h.unrecorded, fun ho => h.spoilt ho.2⟩

/-- A request that ends so is not accounted for. -/
theorem Lost.verdict (h : Lost log) : Accounted variant false log ↔ Orderly log := by
  refine iff_of_false (fun ha => ?_) h.spoilt
  obtain ⟨ok, hok⟩ := ha.once
  cases h.unrecorded.symm.trans hok

/-- The outcome is recorded. -/
theorem Fits.record (h : Fits ok log) {r : Except Exn Unit} : Settled variant (⟨.record variant ok, r⟩ :: log) := by
  have hrecorded : recorded (⟨.record variant ok, r⟩ :: log) = [(variant, ok)] := by
    have hcons : recorded (⟨.record variant ok, r⟩ :: log) = (variant, ok) :: recorded log := List.filterMap_cons_some rfl
    rw [hcons, h.unrecorded]
  have hany : List.any (⟨.record variant ok, r⟩ :: log) Done.failed = log.any Done.failed := rfl
  refine ⟨by rw [hrecorded]; exact List.cons_ne_nil _ _, fun ha => ?_, fun ho => ⟨⟨ok, hrecorded⟩, fun ok' hok' => ?_⟩⟩
  · refine ⟨fun hs => (by cases hs), by_contra fun ho => ?_⟩
    obtain ⟨rfl, hnone⟩ := h.wrong ho
    have hblame := (ha.blame false (by rw [hrecorded]; exact List.mem_cons_self)).mp rfl
    rw [hany, hnone] at hblame
    simp at hblame
  · rw [hrecorded, List.mem_singleton, Prod.mk.injEq] at hok'
    rw [hok'.2, hany, h.right ho.2]
    simp

/-- What comes after the outcome was recorded does not count. -/
theorem Settled.more (h : Settled variant log) (hd : d.outcome = none) (hf : d.failed = false) : Settled variant (d :: log) := by
  have hrecorded : recorded (d :: log) = recorded log := recorded_cons hd
  have hany : List.any (d :: log) Done.failed = log.any Done.failed := by rw [List.any_cons, hf, Bool.false_or]
  refine ⟨hrecorded ▸ h.1, ?_⟩
  have haccounted : Accounted variant false (d :: log) ↔ Accounted variant false log :=
    ⟨fun ha => ⟨hrecorded ▸ ha.once, fun ok' hok' => hany ▸ ha.blame ok' (hrecorded.symm ▸ hok')⟩,
      fun ha => ⟨hrecorded.symm ▸ ha.once, fun ok' hok' => hany.symm ▸ ha.blame ok' (hrecorded ▸ hok')⟩⟩
  exact haccounted.trans (h.2.trans ⟨fun ho => ⟨fun _ => h.1, ho⟩, fun ho => ho.2⟩)

end Log
section Run
variable {T : Turn} {variant : Variant} {ok : Bool} {log : List Done} {α β : Type}

/-- Where the run of a part of a request leads that the table has nothing to do with. -/
def Goes (ok : Bool) (r : Except Exn α) (log : List Done) : Prop :=
  match r with
  | .ok _ => Fits ok log
  | .error _ => Lost log ∧ (ok = true → Fits false log)

/-- Where the run of a part of a request leads that has not failed before. -/
def Ran (r : Except Exn α) (log : List Done) : Prop :=
  match r with
  | .ok _ => Fits true log
  | .error x => Fits false log ∧ (x.isException = false → Lost log)

theorem Goes.ran {r : Except Exn α} (h : Goes true r log) : Ran r log := by
  cases r with
  | ok a => exact h
  | error x => exact ⟨h.2 rfl, fun _ => h.1⟩

theorem goes_bind {p : Program α} {f : α → Program β} (hp : Ends T.answer p log (Goes ok))
    (hf : ∀ a log', Fits ok log' → Ends T.answer (f a) log' (Goes ok)) : Ends T.answer (p.bind f) log (Goes ok) :=
  hp.bind (fun a log' h => hf a log' h) fun _ _ h => h

theorem ran_bind {p : Program α} {f : α → Program β} (hp : Ends T.answer p log Ran)
    (hf : ∀ a log', Fits true log' → Ends T.answer (f a) log' Ran) : Ends T.answer (p.bind f) log Ran :=
  hp.bind (fun a log' h => hf a log' h) fun _ _ h => h

/-- Operations that fail through no fault of the table. -/
def Op.neutral : Op → Bool
  | .meter _ _ | .perfCounter | .uuid | .yield _ => true
  | _ => false

theorem neutral_ends {e : Op} (he : e.neutral = true) (h : Fits ok log) : Ends T.answer (.call e : Program _) log (Goes ok) := by
  refine .call ?_
  have hd : ∀ r : Except Exn e.Reply, (⟨e, r⟩ : Done).outcome = none ∧ (⟨e, r⟩ : Done).failed = false := by
    intro r
    cases e <;> first | exact ⟨rfl, rfl⟩ | cases he
  cases hr : T log.length e with
  | ok a =>
    simp only [Turn.answer, hr]
    refine h.well (hd _).1 (hd _).2 ?_
    cases e <;> first | rfl | cases he
  | error x =>
    simp only [Turn.answer, hr]
    have hs : (⟨e, .error x⟩ : Done).spoils = true := by cases e <;> first | rfl | cases he
    refine ⟨h.spoilt (hd _).1 hs, fun hok => ?_⟩
    subst hok
    exact h.badly (hd _).1 (by rw [(hd _).2, hs]; rfl)

theorem msSince_ends {start : ℚ} (h : Fits ok log) : Ends T.answer (msSince start) log (Goes ok) :=
  goes_bind (neutral_ends rfl h) fun _ _ h => .ret h

theorem give_ends {chunk : ChatChunk} (h : Fits ok log) : ∀ {taken : Nat}, Ends T.answer (give chunk taken) log (Goes ok)
  | 0 => by
    refine goes_bind (neutral_ends rfl h) fun _ log' h' => Ends.bind_iff.mpr (.call ?_)
    have hlost : ∀ r : Except Exn Unit, Lost (⟨.hangUp, r⟩ :: log') ∧ (ok = true → Fits false (⟨.hangUp, r⟩ :: log')) := by
      refine fun r => ⟨h'.spoilt rfl rfl, fun hok => ?_⟩
      subst hok
      exact h'.badly rfl rfl
    simp only [Turn.answer]
    cases hr : T log'.length .hangUp with
    | ok a => exact hlost _
    | error x => exact hlost _
  | _ + 1 => goes_bind (neutral_ends rfl h) fun _ _ h => .ret h

/-- `try .. except Exception` around something that is not the table's fault. -/
theorem caught_ends {p : Program α} {Q : Except Exn (Except Exn α) → List Done → Prop}
    (hp : Ends T.answer p log fun r log' => match r with
      | .ok a => Q (.ok (.ok a)) log'
      | .error x => if x.isException then Q (.ok (.error x)) log' else Q (.error x) log') :
    Ends T.answer (caught p) log Q := by
  refine Ends.bind_iff.mpr (.attempt (hp.mono fun r log' h => ?_))
  cases r with
  | ok a => exact h
  | error x =>
    dsimp only at h ⊢
    split at h
    · rw [if_pos ‹_›]
      exact h
    · rw [if_neg ‹_›]
      exact h

/-- The cache is asked; a failure of it is as good as a miss. -/
theorem lookup_ends {principal : Principal} {request : ChatRequest} (h : Fits true log) :
    Ends T.answer (ChatService.lookup principal request) log (Goes true) := by
  refine Ends.bind_iff.mpr (caught_ends (.call ?_))
  simp only [Turn.answer]
  cases hr : T log.length (.lookup principal.tenantId request) with
  | ok hit => exact h.well rfl rfl rfl
  | error x =>
    dsimp only
    split
    · rename_i hx
      refine h.well rfl rfl ?_
      simp [Done.spoils, hx]
    · rename_i hx
      have hs : (⟨.lookup principal.tenantId request, .error x⟩ : Done).spoils = true := by simp [Done.spoils, hx]
      exact ⟨h.spoilt rfl hs, fun _ => h.badly rfl (by rw [hs]; rfl)⟩

theorem store_ends {principal : Principal} {request : ChatRequest} {completion : CachedCompletion} (h : Fits ok log) :
    Ends T.answer (ChatService.store principal request completion) log (Goes ok) := by
  refine Ends.bind_iff.mpr (caught_ends (.call ?_))
  simp only [Turn.answer]
  cases hr : T log.length (.store principal.tenantId request completion) with
  | ok _ => exact h.well rfl rfl rfl
  | error x =>
    dsimp only
    split
    · rename_i hx
      refine h.well rfl rfl ?_
      simp [Done.spoils, hx]
    · rename_i hx
      have hs : (⟨.store principal.tenantId request completion, .error x⟩ : Done).spoils = true := by simp [Done.spoils, hx]
      refine ⟨h.spoilt rfl hs, fun hok => ?_⟩
      subst hok
      exact h.badly rfl (by rw [hs]; rfl)

theorem fill_ends {use : Bool} {principal : Principal} {request : ChatRequest} {completion : CachedCompletion} (h : Fits ok log) :
    Ends T.answer (ChatService.fill use principal request completion) log (Goes ok) := by
  unfold ChatService.fill
  split
  · exact store_ends h
  · exact .ret h

/-- The router is asked. -/
theorem routed_ends {e : Op} (hd : ∀ r : Except Exn e.Reply, (⟨e, r⟩ : Done).outcome = none)
    (hok : ∀ a : e.Reply, (⟨e, .ok a⟩ : Done).failed = false ∧ (⟨e, .ok a⟩ : Done).spoils = false)
    (herr : ∀ x : Exn, (⟨e, .error x⟩ : Done).failed = x.unserved ∧ (⟨e, .error x⟩ : Done).spoils = !x.unserved)
    (h : Fits true log) : Ends T.answer (.call e : Program _) log Ran := by
  refine .call ?_
  simp only [Turn.answer]
  cases hr : T log.length e with
  | ok a => exact h.well (hd _) (hok a).1 (hok a).2
  | error x =>
    refine ⟨h.badly (hd _) (by rw [(herr x).1, (herr x).2, Bool.not_not]), fun hx => h.spoilt (hd _) ?_⟩
    rw [(herr x).2]
    cases hu : x.unserved with
    | false => rfl
    | true =>
      unfold Exn.unserved at hu
      split at hu
      · cases hx
      · cases hx
      · cases hu

/-! ### The exits -/

section Exits
variable {self : ChatService} {principal : Principal} {request : ChatRequest} {config : RoutingConfig} {variant : Variant}

theorem cachedAnswer_ends (h : Fits true log) : Ends T.answer (self.cachedAnswer principal request) log (Goes true) := by
  unfold ChatService.cachedAnswer
  split
  · exact lookup_ends h
  · exact .ret h

theorem completeWith_ends (h : Fits true log) : Ends T.answer (self.completeWith principal request config) log Ran := by
  refine ran_bind ((neutral_ends rfl h).mono fun _ _ h => h.ran) fun start log h => ?_
  refine ran_bind ((cachedAnswer_ends h).mono fun _ _ h => h.ran) fun hit log h => ?_
  cases hit with
  | some hit =>
    refine ran_bind ((neutral_ends rfl h).mono fun _ _ h => h.ran) fun _ log h => ?_
    exact ran_bind ((msSince_ends h).mono fun _ _ h => h.ran) fun _ _ h => .ret h
  | none =>
    refine ran_bind (routed_ends (fun _ => rfl) (fun _ => ⟨rfl, rfl⟩) (fun _ => ⟨rfl, rfl⟩) h) fun result log h => ?_
    refine ran_bind ((fill_ends h).mono fun _ _ h => h.ran) fun _ log h => ?_
    refine ran_bind ((neutral_ends rfl h).mono fun _ _ h => h.ran) fun _ log h => ?_
    exact ran_bind ((msSince_ends h).mono fun _ _ h => h.ran) fun _ _ h => .ret h

/-- The outcome is recorded, if that does not fail, and nothing more is done that counts. -/
theorem record_ends (hr : self.rollout = true) (h : Fits ok log) :
    Ends T.answer (self.recordVariant (some variant) ok) log fun _ log' => Settled variant log' := by
  rw [ChatService.recordVariant, if_pos hr]
  exact .call h.record

theorem select_ends (hr : self.rollout = true) (hs : T 0 .select = .ok (config, variant)) :
    Ends T.answer self.select [] fun r log => r = .ok (config, some variant) ∧ Fits true log ∧ recorded log = [] := by
  rw [ChatService.select, if_pos hr]
  refine Ends.bind_iff.mpr (.call ?_)
  rw [Turn.answer, List.length_nil, hs]
  exact ⟨rfl, Fits.nil.well rfl rfl rfl, rfl⟩

theorem complete_verdict (hr : self.rollout = true) (hs : T 0 .select = .ok (config, variant))
    (hm : (config.routes.lookup request.model).isNone = false) :
    Ends T.answer (self.complete principal request) [] fun _ log => Accounted variant false log ↔ Orderly log := by
  refine (select_ends hr hs).bind (fun chosen log h => ?_) fun _ _ h => by cases h.1
  obtain ⟨hchosen, h, -⟩ := h
  cases hchosen
  show Ends T.answer (ite _ _ _) _ _
  rw [if_neg (Bool.eq_false_iff.mp hm)]
  refine Ends.bind_iff.mpr (caught_ends ((completeWith_ends h).mono fun r log h => ?_))
  cases r with
  | ok response => exact Ends.bind_iff.mpr ((record_ends hr h).mono fun r log h => by cases r <;> exact h.2)
  | error x =>
    dsimp only
    split
    · exact Ends.bind_iff.mpr ((record_ends hr h.1).mono fun r log h => by cases r <;> exact h.2)
    · exact (h.2 (Bool.eq_false_iff.mpr ‹_›)).verdict

/-- Operations that do not count once the outcome is recorded. -/
def Op.idle : Op → Prop
  | .meter _ _ | .perfCounter | .uuid | .yield _ | .hangUp => True
  | _ => False

theorem settled_hands {p : Program α} (hp : Hands Op.idle p) (h : Settled variant log) :
    Ends T.answer p log fun _ log' => Settled variant log' := by
  refine Ends.hands (fun e log he h => ?_) hp h
  refine h.more ?_ ?_
  · cases e <;> first | rfl | exact he.elim
  · cases e <;> first | rfl | exact he.elim

theorem msSince_hands {start : ℚ} : Hands Op.idle (msSince start) := by
  refine Hands.bind (.call ?_) fun _ => ?_ <;> exact trivial

theorem give_hands {chunk : ChatChunk} {taken : Nat} : Hands Op.idle (give chunk taken) := by
  cases taken with
  | zero => refine Hands.bind (.call ?_) fun _ => Hands.bind (.call ?_) fun _ => ?_ <;> exact trivial
  | succ taken => refine Hands.bind (.call ?_) fun _ => ?_ <;> exact trivial

theorem replayRest_ends {chunkId model : String} : ∀ {pieces : List String} {taken : Nat} {log : List Done}, Fits true log →
    Ends T.answer (ChatService.replayRest chunkId model pieces taken) log (Goes true)
  | [], _, _, h => .ret h
  | _ :: _, _, _, h => goes_bind (give_ends h) fun _ _ h => replayRest_ends h

theorem replayCached_ends {hit : CacheHit} {start : ℚ} {taken : Nat} (h : Fits true log) :
    Ends T.answer (ChatService.replayCached principal hit start taken) log (Goes true) := by
  refine goes_bind (neutral_ends rfl h) fun _ log h => goes_bind (neutral_ends rfl h) fun id log h => ?_
  refine goes_bind (give_ends h) fun taken log h => goes_bind (replayRest_ends h) fun taken log h => ?_
  exact goes_bind (msSince_ends h) fun latencyMs log h => give_ends h

/-- What the relaying of a stream comes to. -/
def Comes (r : Except Exn ChatService.Relayed) (log : List Done) : Prop :=
  ∃ rel, r = .ok rel ∧ match rel.ended with
    | .ok _ => Fits true log
    | .error e => Fits false log ∧ (e.interruption = false → Lost log)

/-- The stream is asked for its next piece. -/
theorem next_ends {opened : OpenStream} (h : Fits true log) :
    Ends T.answer ((Prog.call (Op.next opened) : Program _).attempt) log fun r log => match r with
      | .ok (.ok (.ok _, _)) => Fits true log
      | .ok (.ok (.error e, _)) => Fits false log ∧ ((Exn.raised e).interruption = false → Lost log)
      | .ok (.error _) => Fits false log ∧ Lost log
      | .error _ => False := by
  refine .attempt (.call ?_)
  simp only [Turn.answer]
  cases hr : T log.length (.next opened) with
  | error x => exact ⟨h.badly rfl rfl, h.spoilt rfl rfl⟩
  | ok reply =>
    obtain ⟨piece, opened'⟩ := reply
    cases piece with
    | ok piece => exact h.well rfl rfl rfl
    | error e => exact ⟨h.badly rfl (Bool.not_not _).symm, fun he => h.spoilt rfl (congrArg not he)⟩

theorem relayRest_ends {chunkId : String} {taken : Nat} : ∀ {opened : OpenStream} {delivered : List String} {log : List Done},
    Fits true log → Ends T.answer (ChatService.relayRest chunkId taken opened delivered) log Comes := by
  induction taken with
  | zero =>
    intro opened delivered log h
    rw [ChatService.relayRest]
    refine Ends.bind_iff.mpr ((next_ends h).mono fun r log h => ?_)
    match r, h with
    | .ok (.error e), h => exact ⟨_, rfl, h.1, fun _ => h.2⟩
    | .ok (.ok (.error e, _)), h => exact ⟨_, rfl, h⟩
    | .ok (.ok (.ok none, _)), h => exact ⟨_, rfl, h⟩
    | .ok (.ok (.ok (some delta), _)), h =>
      refine Ends.bind_iff.mpr (.attempt ((give_ends h).mono fun r log h => ?_))
      cases r with
      | ok taken => exact ⟨_, rfl, h⟩
      | error e => exact ⟨_, rfl, h.2 rfl, fun _ => h.1⟩
  | succ taken ih =>
    intro opened delivered log h
    rw [ChatService.relayRest]
    refine Ends.bind_iff.mpr ((next_ends h).mono fun r log h => ?_)
    match r, h with
    | .ok (.error e), h => exact ⟨_, rfl, h.1, fun _ => h.2⟩
    | .ok (.ok (.error e, _)), h => exact ⟨_, rfl, h⟩
    | .ok (.ok (.ok none, _)), h => exact ⟨_, rfl, h⟩
    | .ok (.ok (.ok (some delta), _)), h =>
      refine Ends.bind_iff.mpr (.attempt ((give_ends h).mono fun r log h => ?_))
      cases r with
      | ok _ => exact ih h
      | error e => exact ⟨_, rfl, h.2 rfl, fun _ => h.1⟩

theorem relay_ends {chunkId : String} {opened : OpenStream} {taken : Nat} (h : Fits true log) :
    Ends T.answer (ChatService.relay chunkId opened taken) log Comes := by
  refine Ends.bind_iff.mpr (.attempt ((give_ends h).mono fun r log h => ?_))
  cases r with
  | ok taken => exact relayRest_ends h
  | error e => exact .ret ⟨_, rfl, h.2 rfl, fun _ => h.1⟩

theorem closeStream_verdict {start : ℚ} {chunkId : String} {rel : ChatService.Relayed} {interrupted : Option String}
    (hr : self.rollout = true) (hok : interrupted.isNone = ok) (h : Fits ok log) :
    Ends T.answer (self.closeStream principal request (some variant) start chunkId rel interrupted) log
      fun _ log => Accounted variant false log ↔ Orderly log := by
  have hfinish : Ends T.answer (self.finishStream principal request rel.opened (some variant) start
      (String.join rel.delivered) interrupted) log fun r log => match r with
        | .ok _ => Settled variant log
        | .error _ => Settled variant log ∨ Lost log := by
    refine (fill_ends h).bind (fun _ log h => (neutral_ends rfl h).bind (fun _ log h => ?_) fun _ _ h => Or.inr h.1)
      fun _ _ h => Or.inr h.1
    rw [hok]
    refine (record_ends hr h).bind (fun _ log h => ?_) fun _ _ h => Or.inl h
    exact (settled_hands msSince_hands h).bind (fun _ _ h => .ret h) fun _ _ h => Or.inl h
  refine hfinish.bind (fun footer log h => ?_) fun _ log h => h.elim (fun h => h.2) fun h => h.verdict
  exact Ends.bind_iff.mpr ((settled_hands give_hands h).mono fun r log h => by cases r <;> exact h.2)

/-- However the relaying ended. -/
theorem ended_verdict {start : ℚ} {chunkId : String} {rel : ChatService.Relayed} (hr : self.rollout = true)
    (h : match rel.ended with
      | .ok _ => Fits true log
      | .error e => Fits false log ∧ (e.interruption = false → Lost log)) :
    Ends T.answer (match rel.ended with
      | .ok _ => self.closeStream principal request (some variant) start chunkId rel none
      | .error (.raised (.streamInterrupted message _ _)) =>
        self.closeStream principal request (some variant) start chunkId rel (some message)
      | .error e =>
        if e.gone then (ChatService.meterLater principal rel.opened).bind fun _ => .throw e else .throw e) log
      fun _ log => Accounted variant false log ↔ Orderly log := by
  cases hended : rel.ended with
  | ok _ =>
    rw [hended] at h
    exact closeStream_verdict hr rfl h
  | error e =>
    rw [hended] at h
    split
    · cases ‹Except.error _ = _›
    · cases ‹Except.error _ = _›
      exact closeStream_verdict hr rfl h.1
    · cases ‹Except.error _ = _›
      have hlost : Lost log := by
        refine h.2 (Bool.eq_false_iff.mpr fun he => ?_)
        unfold Exn.interruption at he
        split at he
        · rename_i hother
          exact hother _ _ _ rfl
        · cases he
      split
      · unfold ChatService.meterLater
        split
        · exact hlost.verdict
        · refine Ends.bind_iff.mpr (.call ?_)
          simp only [Turn.answer]
          split <;> exact (hlost.more rfl).verdict
      · exact hlost.verdict

theorem stream_verdict {taken : Nat} (hr : self.rollout = true) (hs : T 0 .select = .ok (config, variant))
    (hm : (config.routes.lookup request.model).isNone = false) :
    Ends T.answer (self.stream principal request taken) [] fun _ log => Accounted variant false log ↔ Orderly log := by
  refine (select_ends hr hs).bind (fun chosen log h => ?_) fun _ _ h => by cases h.1
  obtain ⟨hchosen, h, -⟩ := h
  cases hchosen
  show Ends T.answer (ite _ _ _) _ _
  rw [if_neg (Bool.eq_false_iff.mp hm)]
  refine (neutral_ends rfl h).bind (fun start log h => ?_) fun _ _ h => h.1.verdict
  refine (cachedAnswer_ends h).bind (fun hit log h => ?_) fun _ _ h => h.1.verdict
  cases hit with
  | some hit =>
    refine (replayCached_ends h).bind (fun _ log h => ?_) fun _ _ h => h.1.verdict
    exact (record_ends hr h).mono fun _ _ h => h.2
  | none =>
    have hopen : Ends T.answer (.call (Op.openStream request config)) log Ran :=
      routed_ends (fun _ => rfl) (fun _ => ⟨rfl, rfl⟩) (fun _ => ⟨rfl, rfl⟩) h
    refine Ends.bind_iff.mpr (caught_ends (hopen.mono fun r log h => ?_))
    cases r with
    | error x =>
      dsimp only
      split
      · exact Ends.bind_iff.mpr ((record_ends hr h.1).mono fun r log h => by cases r <;> exact h.2)
      · exact (h.2 (Bool.eq_false_iff.mpr ‹_›)).verdict
    | ok opened =>
      refine (neutral_ends rfl h).bind (fun id log h => ?_) fun _ _ h => h.1.verdict
      refine (relay_ends h).bind (fun rel log h => ?_) fun _ _ h => by obtain ⟨_, hrel, -⟩ := h; cases hrel
      obtain ⟨_, hrel, h⟩ := h
      cases hrel
      exact ended_verdict hr h

/-- A request for an alias that the table does not have is not recorded at all. -/
theorem missing_verdict {mode : Mode} (hr : self.rollout = true) (hs : T 0 .select = .ok (config, variant))
    (hm : (config.routes.lookup request.model).isNone = true) :
    Ends T.answer (self.serve principal request mode) [] fun _ log => recorded log = [] := by
  cases mode with
  | whole =>
    refine Ends.bind_iff.mpr ((select_ends hr hs).bind (fun chosen log h => ?_) fun _ _ h => by cases h.1)
    obtain ⟨hchosen, -, h⟩ := h
    cases hchosen
    show Ends T.answer (ite _ _ _) _ _
    rw [if_pos hm]
    exact h
  | streamed taken =>
    refine (select_ends hr hs).bind (fun chosen log h => ?_) fun _ _ h => by cases h.1
    obtain ⟨hchosen, -, h⟩ := h
    cases hchosen
    show Ends T.answer (ite _ _ _) _ _
    rw [if_pos hm]
    exact h

/-- A request is accounted for if and only if its table has the alias, and until its outcome is recorded nothing
    goes wrong that the table is not to blame for. -/
theorem accounted_iff {mode : Mode} (hr : self.rollout = true) (hs : T 0 .select = .ok (config, variant)) :
    Accounted variant (config.routes.lookup request.model).isNone (self.served principal request mode T).2 ↔
      (config.routes.lookup request.model).isSome = true ∧ Orderly (self.served principal request mode T).2 := by
  cases hm : (config.routes.lookup request.model).isNone with
  | true =>
    have hlog : recorded (self.served principal request mode T).2 = [] := missing_verdict hr hs hm
    refine iff_of_false (fun ha => ?_) fun h => ?_
    · obtain ⟨ok, hok⟩ := ha.once
      cases hlog.symm.trans hok
    · rw [Option.isNone_iff_eq_none.mp hm] at h
      cases h.1
  | false =>
    have hserved : Ends T.answer (self.serve principal request mode) [] fun _ log =>
        Accounted variant false log ↔ Orderly log := by
      cases mode with
      | whole => exact Ends.bind_iff.mpr ((complete_verdict hr hs hm).mono fun r log h => by cases r <;> exact h)
      | streamed taken => exact stream_verdict hr hs hm
    have hsome : (config.routes.lookup request.model).isSome = true := by
      rw [← Option.not_isNone, hm]
      rfl
    exact Iff.trans hserved ⟨fun ho => ⟨hsome, ho⟩, fun h => h.2⟩

end Exits
end Run

/-! ### A request that the provider rejects -/

namespace Rejected

def table : RoutingConfig where
  routes := [⟨"default", [{ name := "small", provider := "local", model := "m" }]⟩].toAList
  nonempty := by decide
  named := by decide

def canary : Variant := ⟨canaryName, "a83f2d5ab0d7"⟩

def service : ChatService where
  config := table
  cache := false
  rollout := true

def request : ChatRequest := ⟨"default", [⟨.user, "hi"⟩], none, none, false, true, by decide⟩

/-- The canary serves the request, and its provider answers 400. -/
def turn : Turn
  | _, .select => .ok (table, canary)
  | _, .perfCounter => .ok 0
  | _, .complete _ _ => .error (.raised (.clientRequest "400: no such parameter" []))
  | _, .record _ _ => .ok ()
  | _, _ => .error (.raised .cancelled)

/-- The provider answers. -/
def answered : Turn
  | _, .select => .ok (table, canary)
  | _, .perfCounter => .ok 0
  | _, .complete _ _ => .ok {
      response := { content := "hello", usage := {}, model := "m" }
      deployment := { name := "small", provider := "local", model := "m" }, attempts := [], costUsd := 0 }
  | _, .record _ _ => .ok ()
  | _, .meter _ _ => .ok ()
  | _, _ => .error (.raised .cancelled)

def principal : Principal := ⟨"acme", "key-1"⟩

theorem answered_accounted :
    Accounted canary (table.routes.lookup request.model).isNone (service.served principal request .whole answered).2 := by
  have hr : service.rollout = true := rfl
  have hs : answered 0 .select = .ok (table, canary) := rfl
  exact (accounted_iff hr hs).mpr ⟨by decide, by decide⟩

/-- A malformed request counts as an error of the canary. -/
theorem not_accounted : ¬Accounted canary false (service.served principal request .whole turn).2 := by
  intro h
  have hrecorded : recorded (service.served principal request .whole turn).2 = [(canary, false)] := by decide
  have hfailed : (service.served principal request .whole turn).2.any Done.failed = false := by decide
  have hblame := (h.blame false (by rw [hrecorded]; exact List.mem_cons_self)).mp rfl
  rw [hfailed] at hblame
  simp at hblame

end Rejected
end NexusGate.Gateway.Chat
