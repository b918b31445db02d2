import NexusGate.Async.Eval
import NexusGate.Text.WordStarts
import NexusGate.Theorems.Gateway.Walk

/-! # The running estimate of a stream

While a provider reports no usage, `_relay` keeps an estimate of the words that it has delivered: the spaces of each piece,
and one for the first. What is billed at the end is the number of words of the whole text. The two agree at every moment if and
only if in each piece as many words begin as it is counted for. -/

namespace NexusGate.Gateway.LLMRouter
open Async Router Text
variable {self : LLMRouter} {opened opened' : OpenStream} {first : String} {texts delivered : List String}

/-- A generator that has begun, as it waits for its first item. -/
def begun (self : LLMRouter) (opened : OpenStream) : OpenStream :=
  let first := opened.first.content
  self.estimate (absorb opened opened.first) (spaces first + if first = "" then 0 else 1)

/-- A stream of which items were taken, one after the other, in whatever surroundings. -/
inductive ItemsTaken (self : LLMRouter) (opened : OpenStream) : OpenStream → Prop
  | none : ItemsTaken self opened opened
  | next {o o' : OpenStream} {σ : Type} {h : Handler Op Op.Reply Exn σ} {s s' : σ} {delta : StreamDelta}
      (before : ItemsTaken self opened o) (item : (self.relayNext o).run h s = (.ok (.ok (some delta), o'), s')) :
      ItemsTaken self opened o'

/-- Where the generator is suspended, its estimate is what would be billed if the stream ended there. -/
structure EstimatesFinal (router : LLMRouter) (opened : OpenStream) : Prop where
  begun : (router.begun opened).usage.completionTokens = (words opened.first.content).length
  relayed : ∀ o, ItemsTaken router opened o → ∀ iterator delivered count, o.rest = .suspended iterator delivered count →
    o.usage.completionTokens = (words (String.join delivered)).length ∧
      o.usage = (router.settle o (String.join delivered)).usage

/-- The provider reports no usage, and nothing of the stream has been asked for. -/
structure Unreported (opened : OpenStream) (iterator : Script) : Prop where
  rest : opened.rest = .notStarted iterator
  reportedUsage : opened.reportedUsage = false
  settled : opened.settled = false
  first : opened.first.usage = none
  deltas : ∀ delta ∈ iterator.deltas, delta.usage = none

/-! ### Counting -/

/-- The texts of the deltas that are delivered. -/
def textsOf (deltas : List StreamDelta) : List String := (deltas.map StreamDelta.content).filter (· ≠ "")

/-- What the estimate counts. -/
def counted (first : String) (texts : List String) : Nat := spaces first + (if first = "" then 0 else 1) + (texts.map spaces).sum

/-- In each text as many words begin as it has spaces. -/
def StartsMatch : (fresh : Bool) → List String → Prop
  | _, [] => True
  | fresh, text :: texts => spaces text = wordStarts fresh text.toList ∧ StartsMatch (opensWord fresh text.toList) texts

/-- In the first text one more begins, unless it is empty. -/
def AllMatch (first : String) (texts : List String) : Prop :=
  spaces first + (if first = "" then 0 else 1) = wordStarts true first.toList ∧ StartsMatch (opensWord true first.toList) texts

theorem startsMatch_iff {fresh : Bool} : StartsMatch fresh texts ↔
    ∀ n, ((texts.take n).map spaces).sum = wordStarts fresh ((texts.take n).flatMap String.toList) := by
  induction texts generalizing fresh with
  | nil => simp [StartsMatch, wordStarts]
  | cons text texts ih =>
    rw [StartsMatch, ih]
    constructor
    · rintro ⟨htext, h⟩ n
      cases n with
      | zero => rfl
      | succ n => rw [List.take_succ_cons, List.map_cons, List.sum_cons, List.flatMap_cons, wordStarts_append, htext, h n]
    · intro h
      have htext : spaces text = wordStarts fresh text.toList := by simpa using h 1
      refine ⟨htext, fun n => ?_⟩
      have := h (n + 1)
      rw [List.take_succ_cons, List.map_cons, List.sum_cons, List.flatMap_cons, wordStarts_append, htext] at this
      exact Nat.add_left_cancel this

/-- The count agrees with the words of every beginning of the text. -/
theorem allMatch_iff : AllMatch first texts ↔
    ∀ n, counted first (texts.take n) = (words (String.join (first :: texts.take n))).length := by
  have hwords : ∀ n, (words (String.join (first :: texts.take n))).length =
      wordStarts true first.toList + wordStarts (opensWord true first.toList) ((texts.take n).flatMap String.toList) := by
    intro n
    rw [length_words, String.toList_join, List.flatMap_cons, wordStarts_append]
  rw [AllMatch, startsMatch_iff]
  constructor
  · rintro ⟨hfirst, h⟩ n
    rw [hwords, counted, hfirst, h n]
  · intro h
    have hfirst : spaces first + (if first = "" then 0 else 1) = wordStarts true first.toList := by
      have := h 0
      rw [hwords, counted] at this
      simpa [wordStarts] using this
    refine ⟨hfirst, fun n => ?_⟩
    have := h n
    rw [hwords, counted, hfirst] at this
    exact Nat.add_left_cancel this

/-! ### The generator -/

section Generator
variable {σ : Type} {h : Handler Op Op.Reply Exn σ} {s s' : σ} {failure : Option Failure} {deltas : List StreamDelta}
  {count : Nat} {delta : StreamDelta} {text : String} {r : Except Exn (Option StreamDelta)}

/-- On its way out a generator hands over no item. -/
theorem leave_no_item (hr : r ≠ .ok (some delta)) : ((self.leave opened text r).run h s).1 ≠ .ok (.ok (some delta), opened') := by
  intro heq
  rw [leave] at heq
  simp only [bind, Prog.run_bind] at heq
  split at heq
  · simp only [Prog.run_attempt] at heq
    split at heq
    · exact hr (congrArg Prod.fst (Except.ok.inj heq))
    · cases (congrArg Prod.fst (Except.ok.inj heq))
  · cases heq

theorem relayEnd_no_item : ((self.relayEnd failure delivered opened).run h s).1 ≠ .ok (.ok (some delta), opened') := by
  intro heq
  cases failure with
  | none =>
    rw [relayEnd] at heq
    simp only [bind, Prog.run_bind, Prog.run_attempt] at heq
    split at heq
    · exact absurd heq (leave_no_item nofun)
    · exact absurd heq (leave_no_item nofun)
  | some failure =>
    rw [relayEnd] at heq
    simp only [bind, Prog.run_bind, Prog.run_attempt] at heq
    split at heq
    · split at heq
      · exact absurd heq (leave_no_item nofun)
      · exact absurd heq (leave_no_item nofun)
    · cases heq

/-- The stream after the item of a delta, with what is left of it. -/
def withItem (self : LLMRouter) (iterator : Script) (delivered : List String) (count : Nat) (delta : StreamDelta)
    (opened : OpenStream) : OpenStream :=
  { self.estimate (absorb opened delta) (count + spaces delta.content) with
    rest := .suspended iterator (delivered ++ [delta.content]) (count + spaces delta.content) }

/-- An item is that of the first delta that is not empty. -/
theorem relayLoop_item
    (heq : ((self.relayLoop failure deltas delivered count opened).run h s).1 = .ok (.ok (some delta), opened')) :
    ∃ skipped rest, deltas = skipped ++ delta :: rest ∧ (∀ d ∈ skipped, d.content = "") ∧ delta.content ≠ "" ∧
      opened' = self.withItem ⟨rest, failure⟩ delivered count delta (skipped.foldl absorb opened) := by
  induction deltas generalizing opened s with
  | nil =>
    rw [relayLoop] at heq
    simp only [bind, Prog.run_bind, Prog.run_attempt] at heq
    split at heq
    · exact absurd heq (leave_no_item nofun)
    · exact absurd heq relayEnd_no_item
  | cons d deltas ih =>
    rw [relayLoop] at heq
    simp only [bind, Prog.run_bind, Prog.run_attempt] at heq
    split at heq
    · exact absurd heq (leave_no_item nofun)
    · split at heq
      · rename_i hempty
        obtain ⟨skipped, rest, rfl, hskipped, hne, hopened⟩ := ih heq
        exact ⟨d :: skipped, rest, rfl, List.forall_mem_cons.mpr ⟨hempty, hskipped⟩, hne, hopened⟩
      · rename_i hne
        cases heq
        exact ⟨[], deltas, rfl, nofun, hne, rfl⟩

/-- Surroundings in which a provider is never waited for in vain. -/
def prompt : Handler Op Op.Reply Exn Unit := fun e s =>
  (match e with
    | .wait _ => .ok ()
    | _ => .error .cancelled, s)

/-- There, every delta that is not empty becomes an item. -/
theorem relayLoop_prompt (hskipped : ∀ d ∈ deltas, d.content = "") {rest : List StreamDelta} (hne : delta.content ≠ "") :
    (self.relayLoop failure (deltas ++ delta :: rest) delivered count opened).run prompt () =
      (.ok (.ok (some delta), self.withItem ⟨rest, failure⟩ delivered count delta (deltas.foldl absorb opened)), ()) := by
  induction deltas generalizing opened with
  | nil =>
    rw [List.nil_append, relayLoop]
    simp only [bind, Prog.run_bind, Prog.run_attempt, Prog.run_call, prompt]
    rw [if_neg hne]
    rfl
  | cons d deltas ih =>
    obtain ⟨hempty, hskipped⟩ := List.forall_mem_cons.mp hskipped
    rw [List.cons_append, relayLoop]
    simp only [bind, Prog.run_bind, Prog.run_attempt, Prog.run_call, prompt]
    rw [if_pos hempty]
    exact ih hskipped

end Generator

/-! ### A stream without a report of its usage -/

section Unreported
variable {iterator : Script} {skipped rest : List StreamDelta} {delta : StreamDelta} {o : OpenStream}

/-- Nothing has been reported, and nothing settled. -/
structure Open (o : OpenStream) : Prop where
  reportedUsage : o.reportedUsage = false
  settled : o.settled = false

theorem Open.absorb (hopen : Open o) (hdelta : delta.usage = none) : Open (Gateway.LLMRouter.absorb o delta) where
  reportedUsage := by
    show (o.reportedUsage || delta.usage.isSome) = false
    rw [hopen.reportedUsage, hdelta]
    rfl
  settled := hopen.settled

theorem Open.skip (hopen : Open o) (hskipped : ∀ d ∈ skipped, d.usage = none) : Open (skipped.foldl Gateway.LLMRouter.absorb o) := by
  induction skipped generalizing o with
  | nil => exact hopen
  | cons d skipped ih =>
    obtain ⟨hd, hskipped⟩ := List.forall_mem_cons.mp hskipped
    exact ih (hopen.absorb hd) hskipped

theorem Open.estimate (hopen : Open o) (count : Nat) : Open (self.estimate o count) ∧
    (self.estimate o count).usage = ⟨o.promptEstimate, count⟩ ∧ (self.estimate o count).promptEstimate = o.promptEstimate := by
  rw [LLMRouter.estimate, if_neg (by rw [hopen.reportedUsage]; exact Bool.false_ne_true)]
  exact ⟨⟨hopen.reportedUsage, hopen.settled⟩, rfl, rfl⟩

theorem Open.settle (hopen : Open o) (text : String) :
    (self.settle o text).usage = ⟨o.promptEstimate, (words text).length⟩ := by
  rw [LLMRouter.settle, if_neg (by rw [hopen.settled]; exact Bool.false_ne_true),
    if_neg (by rw [hopen.reportedUsage]; exact Bool.false_ne_true)]

/-- The generator is suspended after these texts. -/
structure SuspendedAfter (opened : OpenStream) (iterator : Script) (texts : List String) (o : OpenStream) : Prop where
  open_ : Open o
  usage : o.usage = ⟨o.promptEstimate, counted opened.first.content texts⟩
  stands : ∃ rest, o.rest = .suspended ⟨rest, iterator.failure⟩ (opened.first.content :: texts) (counted opened.first.content texts) ∧
    textsOf iterator.deltas = texts ++ textsOf rest ∧ ∀ d ∈ rest, d.usage = none

theorem textsOf_append (hskipped : ∀ d ∈ skipped, d.content = "") (hne : delta.content ≠ "") :
    textsOf (skipped ++ delta :: rest) = delta.content :: textsOf rest := by
  have hnil : textsOf skipped = [] := by
    rw [textsOf, List.filter_eq_nil_iff]
    intro text htext
    obtain ⟨d, hd, rfl⟩ := List.mem_map.mp htext
    simp [hskipped d hd]
  rw [textsOf, List.map_append, List.filter_append]
  show textsOf skipped ++ textsOf (delta :: rest) = _
  rw [hnil, List.nil_append, textsOf, List.map_cons, List.filter_cons_of_pos (by simpa using hne)]
  rfl

theorem counted_append {text : String} : counted first (texts ++ [text]) = counted first texts + spaces text := by
  rw [counted, counted, List.map_append, List.sum_append, List.map_singleton, List.sum_singleton]
  simp only [Nat.add_assoc]

/-- An item more. -/
theorem SuspendedAfter.withItem (hopen : Open o)
    (htexts : textsOf iterator.deltas = texts ++ textsOf (skipped ++ delta :: rest))
    (husage : ∀ d ∈ skipped ++ delta :: rest, d.usage = none) (hskipped : ∀ d ∈ skipped, d.content = "")
    (hne : delta.content ≠ "") : SuspendedAfter opened iterator (texts ++ [delta.content])
      (self.withItem ⟨rest, iterator.failure⟩ (opened.first.content :: texts) (counted opened.first.content texts) delta
        (skipped.foldl Gateway.LLMRouter.absorb o)) := by
  have habsorbed : Open (Gateway.LLMRouter.absorb (skipped.foldl Gateway.LLMRouter.absorb o) delta) :=
    (hopen.skip fun d hd => husage d (List.mem_append_left _ hd)).absorb (husage delta (List.mem_append_right _ List.mem_cons_self))
  obtain ⟨hestimated, hestimate, hprompt⟩ :=
    @Open.estimate self _ habsorbed (counted opened.first.content texts + spaces delta.content)
  rw [textsOf_append hskipped hne] at htexts
  constructor
  case open_ => exact ⟨hestimated.reportedUsage, hestimated.settled⟩
  case usage =>
    rw [counted_append]
    show (self.estimate _ _).usage = ⟨(self.estimate _ _).promptEstimate, _⟩
    rw [hestimate, hprompt]
  case stands =>
    refine ⟨rest, ?_, by rw [htexts, List.append_assoc]; rfl, fun d hd => husage d ?_⟩
    · rw [counted_append]
      rfl
    · exact List.mem_append_right _ (List.mem_cons_of_mem _ hd)

theorem Unreported.begun (U : Unreported opened iterator) : Open (self.begun opened) ∧
    (self.begun opened).usage = ⟨opened.promptEstimate, counted opened.first.content []⟩ := by
  have hopen : Open opened := ⟨U.reportedUsage, U.settled⟩
  obtain ⟨hbegun, husage, -⟩ := @Open.estimate self _ (hopen.absorb U.first)
    (spaces opened.first.content + if opened.first.content = "" then 0 else 1)
  exact ⟨hbegun, husage⟩

theorem Unreported.firstItem (U : Unreported opened iterator) (hsplit : iterator.deltas = skipped ++ delta :: rest)
    (hskipped : ∀ d ∈ skipped, d.content = "") (hne : delta.content ≠ "") :
    SuspendedAfter opened iterator [delta.content] (self.withItem ⟨rest, iterator.failure⟩ [opened.first.content]
      (counted opened.first.content []) delta (skipped.foldl Gateway.LLMRouter.absorb (self.begun opened))) := by
  have htexts : textsOf iterator.deltas = [] ++ textsOf (skipped ++ delta :: rest) := by rw [hsplit, List.nil_append]
  exact SuspendedAfter.withItem U.begun.1 htexts (hsplit ▸ U.deltas) hskipped hne

/-- Where a generator stands that items were taken of. -/
theorem ItemsTaken.suspended (U : Unreported opened iterator) (h : ItemsTaken self opened o) :
    o = opened ∨ ∃ texts, SuspendedAfter opened iterator texts o := by
  induction h with
  | none => exact .inl rfl
  | @next o o' σ h s s' delta before item ih =>
    have hitem : ((self.relayNext o).run h s).1 = .ok (.ok (some delta), o') := by rw [item]
    rcases ih with rfl | ⟨texts, open_, usage, rest, hrest, htexts, hdeltas⟩
    · rw [relayNext, U.rest] at hitem
      obtain ⟨skipped, rest, hsplit, hskipped, hne, rfl⟩ := relayLoop_item hitem
      exact .inr ⟨_, U.firstItem hsplit hskipped hne⟩
    · rw [relayNext, hrest] at hitem
      obtain ⟨skipped, rest', rfl, hskipped, hne, rfl⟩ := relayLoop_item hitem
      exact .inr ⟨_, SuspendedAfter.withItem open_ htexts hdeltas hskipped hne⟩

/-- The first delta with a text, if there is one. -/
theorem textsOf_cons {deltas : List StreamDelta} {text : String} {texts : List String} (h : textsOf deltas = text :: texts) :
    ∃ skipped delta rest, deltas = skipped ++ delta :: rest ∧ (∀ d ∈ skipped, d.content = "") ∧ delta.content = text ∧
      delta.content ≠ "" ∧ textsOf rest = texts := by
  induction deltas with
  | nil => cases h
  | cons d deltas ih =>
    by_cases hd : d.content = ""
    · rw [textsOf, List.map_cons, List.filter_cons_of_neg (by simpa using hd)] at h
      obtain ⟨skipped, delta, rest, rfl, hskipped, hrest⟩ := ih h
      exact ⟨d :: skipped, delta, rest, rfl, List.forall_mem_cons.mpr ⟨hd, hskipped⟩, hrest⟩
    · rw [textsOf, List.map_cons, List.filter_cons_of_pos (by simpa using hd)] at h
      obtain ⟨rfl, hrest⟩ := List.cons.inj h
      exact ⟨[], d, deltas, rfl, nofun, rfl, hd, hrest⟩

/-- Each beginning of the text is delivered at some moment. -/
theorem exists_suspended (U : Unreported opened iterator) : ∀ {texts after : List String}, textsOf iterator.deltas = texts ++ after →
    texts ≠ [] → ∃ o, ItemsTaken self opened o ∧ SuspendedAfter opened iterator texts o := by
  intro texts
  induction texts using List.reverseRecOn with
  | nil => exact fun _ hne => absurd rfl hne
  | append_singleton texts text ih =>
    intro after htexts _
    rw [List.append_assoc, List.singleton_append] at htexts
    by_cases hnil : texts = []
    · subst hnil
      obtain ⟨skipped, delta, rest, hsplit, hskipped, rfl, hne, -⟩ := textsOf_cons htexts
      have hitem : (self.relayNext opened).run prompt () = (.ok (.ok (some delta), self.withItem ⟨rest, iterator.failure⟩
          [opened.first.content] (counted opened.first.content []) delta (skipped.foldl Gateway.LLMRouter.absorb (self.begun opened))),
          ()) := by
        rw [relayNext, U.rest]
        dsimp only
        rw [hsplit]
        exact relayLoop_prompt hskipped hne
      exact ⟨_, .next .none hitem, U.firstItem hsplit hskipped hne⟩
    · obtain ⟨o, htaken, open_, usage, rest, hrest, htexts', hdeltas⟩ := ih htexts hnil
      have hafter : textsOf rest = text :: after := List.append_cancel_left (htexts'.symm.trans htexts)
      obtain ⟨skipped, delta, rest', rfl, hskipped, rfl, hne, -⟩ := textsOf_cons hafter
      have hitem : (self.relayNext o).run prompt () = (.ok (.ok (some delta), self.withItem ⟨rest', iterator.failure⟩
          (opened.first.content :: texts) (counted opened.first.content texts) delta (skipped.foldl Gateway.LLMRouter.absorb o)),
          ()) := by
        rw [relayNext, hrest]
        exact relayLoop_prompt hskipped hne
      exact ⟨_, .next htaken hitem, SuspendedAfter.withItem open_ htexts' hdeltas hskipped hne⟩

end Unreported

/-- The running estimate is the final count at every moment, if and only if every text has as many spaces as words begin in it,
    the first one less. -/
theorem estimatesFinal_iff (self : LLMRouter) {opened : OpenStream} {iterator : Script} (U : Unreported opened iterator) :
    EstimatesFinal self opened ↔ AllMatch opened.first.content (textsOf iterator.deltas) := by
  have hbegun : (self.begun opened).usage = ⟨opened.promptEstimate, counted opened.first.content []⟩ := U.begun.2
  have hjoin : String.join [opened.first.content] = opened.first.content := by
    refine String.toList_injective ?_
    rw [String.toList_join, List.flatMap_singleton]
  rw [allMatch_iff]
  constructor
  · rintro ⟨hfirst, hrelayed⟩ n
    by_cases hnil : (textsOf iterator.deltas).take n = []
    · rw [hnil, hjoin, ← hfirst, hbegun]
    · obtain ⟨o, htaken, hsuspended⟩ :=
        @exists_suspended self opened iterator U _ _ (List.take_append_drop n (textsOf iterator.deltas)).symm hnil
      obtain ⟨rest, hrest, -⟩ := hsuspended.stands
      rw [← (hrelayed o htaken _ _ _ hrest).1, hsuspended.usage]
  · intro h
    refine ⟨?_, fun o htaken it delivered count hrest => ?_⟩
    · rw [hbegun, ← hjoin]
      exact h 0
    · rcases htaken.suspended U with rfl | ⟨texts, hsuspended⟩
      · rw [U.rest] at hrest
        cases hrest
      obtain ⟨rest, hrest', htexts, -⟩ := hsuspended.stands
      rw [hrest'] at hrest
      cases hrest
      have hcount := h texts.length
      rw [htexts, List.take_left] at hcount
      rw [hsuspended.open_.settle, hsuspended.usage, hcount]
      exact ⟨rfl, rfl⟩

/-- A stream of two deltas. -/
def twoDeltas (first second : String) : OpenStream where
  deployment := Fallback.primary
  model := "fake/primary"
  attempts := []
  first := { content := first }
  rest := .notStarted ⟨[{ content := second }], none⟩
  ttftMs := 1

theorem twoDeltas_unreported (first second : String) : Unreported (twoDeltas first second) ⟨[{ content := second }], none⟩ where
  rest := rfl
  reportedUsage := rfl
  settled := rfl
  first := rfl
  deltas := List.forall_mem_singleton.mpr rfl

theorem estimatesFinal_hello : EstimatesFinal Fallback.router (twoDeltas "Hello" " world") :=
  (estimatesFinal_iff Fallback.router (twoDeltas_unreported "Hello" " world")).mpr ⟨by decide, by decide, trivial⟩

theorem not_estimatesFinal : ¬∀ (self : LLMRouter) (opened : OpenStream) (iterator : Script), Unreported opened iterator →
    EstimatesFinal self opened := by
  intro h
  have item : (Fallback.router.relayNext (twoDeltas "Hello" "\nworld")).run prompt () =
      (.ok (.ok (some { content := "\nworld" }), Fallback.router.withItem ⟨[], none⟩ ["Hello"] 1 { content := "\nworld" }
        (Fallback.router.begun (twoDeltas "Hello" "\nworld"))), ()) := rfl
  have hfinal := ((h Fallback.router _ _ (twoDeltas_unreported "Hello" "\nworld")).relayed _ (.next .none item) _ _ _ rfl).1
  exact absurd hfinal (by decide)

end NexusGate.Gateway.LLMRouter
