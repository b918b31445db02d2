import NexusGate.Async.Ledger
import NexusGate.Async.Lives
import NexusGate.Async.Solo
import NexusGate.Theorems.Core.Amounts

/-! # What the usage of a day adds up to

What a key holds is the sum of what the calls that are under way have sent, and of whole calls, as long as the key expires
only while no call on it is under way. -/

namespace NexusGate.Core.Metering
open Async Async.System Redis Gateway.Chat

/-! ### What the calls do -/

section Watching
variable (meter : UsageMeter)

/-- The operations of a call that has sent `n` commands. -/
inductive May : Call → Nat → Op → Prop
  | send {r n c} (h : (meter.commands r)[n]? = some c) : May (.record r) n (.redis c)
  | daily {k d t n keyId day} : May (.daily k d t) n (.hgetall (usageKey keyId day))
  | usage {p d t n keyId day} : May (.usage p d t) n (.hgetall (usageKey keyId day))

/-- What is read is sound. -/
def Fits : (e : Op) → Except Exn e.Reply → Prop
  | .redis _, _ => True
  | .hgetall _, .ok row => amounts row ∈ sound
  | .hgetall _, .error _ => False

/-- The number of commands a call has sent. -/
def advance : Op → Nat → Nat
  | .redis _, n => n + 1
  | .hgetall _, n => n

/-- What a read ends with: rows that hide nothing, unless a date was out of range or there was none to sum up. -/
def Answers : Call → Except Exn Result → Prop
  | .record _, _ => True
  | .daily _ _ _, .ok (.rows days) => ∀ u ∈ days, u.Partitioned
  | .daily _ _ _, r => r = .error .overflowError
  | .usage _ _ _, .ok (.response r) => (∀ u ∈ r.days, u.Partitioned) ∧ r.totals.Partitioned
  | .usage _ days _, r => r = .error .overflowError ∨ days = 0

/-- A recording has sent all of its commands when it ends; the other calls answer as they say. -/
def Last : Call → Except Exn Result → Nat → Prop
  | .record r, _, n => n = (meter.commands r).length
  | c, r, _ => Answers c r

/-- What a call of the meter may send. -/
def monitor (c : Call) : Monitor Op Op.Reply Exn Nat where
  may := May meter c
  next n e r n' := Fits e r ∧ n' = advance e n

/-- Every call of the meter is watched. -/
def watch : Watch (system meter) where
  G := Nat
  monitor := monitor meter
  first _ := 0
  last := Last meter

end Watching

section Follow
variable {meter : UsageMeter}

theorem send_follows {r : Recording} : ∀ {cs : List (Cmd ℚ)} {n : Nat}, n + cs.length = (meter.commands r).length →
    cs = (meter.commands r).drop n →
    Follows (monitor meter (.record r)) (fun _ n => n = (meter.commands r).length)
      (pipeline (fun c => Prog.call (Op.redis c)) cs) n
  | [], n, hlen, _ => hlen
  | c :: cs, n, hlen, hcs => by
    have hget : (meter.commands r)[n]? = some c := by rw [← List.head?_drop, ← hcs, List.head?_cons]
    have hrest : cs = (meter.commands r).drop (n + 1) := by rw [← List.tail_drop, ← hcs, List.tail_cons]
    have hlen : n + 1 + cs.length = (meter.commands r).length := by rw [List.length_cons] at hlen; omega
    refine Follows.bind (P := fun a n' => (∃ x, a = .ok x) ∧ n' = n + 1) ?_ ?_ (fun x n' h => nomatch h.1)
    · exact Follows.attempt_iff.mpr (Follows.call_iff.mpr ⟨.send hget, fun a n' h => ⟨⟨a, rfl⟩, h.2⟩⟩)
    · rintro a n' ⟨-, rfl⟩
      refine Follows.bind (P := fun b n' => (∃ x, b = .ok x) ∧ n' = (meter.commands r).length) ?_ ?_ (fun x n' h => nomatch h.1)
      · exact Follows.attempt_iff.mpr ((send_follows hlen hrest).mono fun b n' h => ⟨⟨b, rfl⟩, h⟩)
      · rintro b n' ⟨-, rfl⟩
        cases a <;> cases b <;> rfl

/-- What a pipeline of reads comes to: a sound row for each of the dates. -/
def RowsFor (ds : List Date) : Except Exn (List Row) → Nat → Prop
  | .ok rows, _ => rows.length = ds.length ∧ ∀ row ∈ rows, amounts row ∈ sound
  | .error _, _ => False

theorem read_follows {c : Call} {keyId : String} (hc : ∀ {n keyId day}, May meter c n (.hgetall (usageKey keyId day))) :
    ∀ {ds : List Date} {n : Nat}, Follows (monitor meter c) (RowsFor ds)
      (pipeline (fun d => Prog.call (Op.hgetall (usageKey keyId d))) ds) n
  | [], _ => ⟨rfl, nofun⟩
  | d :: ds, n => by
    refine Follows.bind (P := fun a _ => ∃ row, a = .ok (.ok row) ∧ amounts row ∈ sound) ?_ ?_ (fun x n' h => nomatch h)
    · refine Follows.attempt_iff.mpr (Follows.call_iff.mpr ⟨hc, fun a n' h => ?_⟩)
      cases a with
      | ok row => exact ⟨row, rfl, h.1⟩
      | error x => exact h.1.elim
    · rintro a n' ⟨row, ha, hrow⟩
      cases ha
      refine Follows.bind (P := fun b _ => ∃ rows, b = .ok (.ok rows) ∧ RowsFor ds (.ok rows) 0) ?_ ?_ (fun x n' h => nomatch h)
      · refine Follows.attempt_iff.mpr ((read_follows hc).mono fun b n' h => ?_)
        cases b with
        | ok rows => exact ⟨rows, rfl, h⟩
        | error x => exact h.elim
      · rintro b n' ⟨rows, hb, hlen, hrows⟩
        cases hb
        exact ⟨congrArg (· + 1) hlen, List.forall_mem_cons.mpr ⟨hrow, hrows⟩⟩

/-- The rows of the days, each with the date it is for. -/
theorem mapM_dailyUsage : ∀ {xs : List (Date × Row)}, (∀ x ∈ xs, amounts x.2 ∈ sound) →
    ∃ us, xs.mapM (fun x => dailyUsage x.1 x.2) = .ok us ∧ us.length = xs.length ∧ ∀ u ∈ us, u.Partitioned
  | [], _ => ⟨[], rfl, rfl, nofun⟩
  | x :: xs, h => by
    obtain ⟨u, hu, hpart⟩ := dailyUsage_sound (h x List.mem_cons_self) x.1
    obtain ⟨us, hus, hlen, hparts⟩ := mapM_dailyUsage fun y hy => h y (List.mem_cons_of_mem _ hy)
    exact ⟨u :: us, by rw [List.mapM_cons, hu, hus]; rfl, congrArg (· + 1) hlen, List.forall_mem_cons.mpr ⟨hpart, hparts⟩⟩

theorem mapM_daysBefore {today : Date} : ∀ {is : List Nat},
    (∃ ds, is.mapM (UsageMeter.daysBefore today) = .ok ds ∧ ds.length = is.length) ∨
      is.mapM (UsageMeter.daysBefore today) = .error .overflowError
  | [] => Or.inl ⟨[], rfl, rfl⟩
  | i :: is => by
    rw [List.mapM_cons]
    cases hd : UsageMeter.daysBefore today i with
    | error x =>
      unfold UsageMeter.daysBefore at hd
      split at hd
      · cases hd
      · cases hd
        exact Or.inr rfl
    | ok d =>
      rcases @mapM_daysBefore today is with ⟨ds, hds, hlen⟩ | herr
      · exact Or.inl ⟨d :: ds, by rw [hds]; rfl, congrArg (· + 1) hlen⟩
      · exact Or.inr (by rw [herr]; rfl)

theorem dates_ok {days : Nat} {today : Date} :
    (∃ ds, UsageMeter.dates days today = .ok ds ∧ ds.length = days) ∨ UsageMeter.dates days today = .error .overflowError := by
  simpa [UsageMeter.dates] using @mapM_daysBefore today (List.range days).reverse

/-- `daily` ends with a row for each day, or has no date for one. -/
theorem daily_follows {c : Call} {keyId : String} {days : Nat} {today : Date} {n : Nat}
    (hc : ∀ {n keyId day}, May meter c n (.hgetall (usageKey keyId day))) :
    Follows (monitor meter c) (fun r _ => (∃ us, r = .ok us ∧ us.length = days ∧ ∀ u ∈ us, u.Partitioned) ∨ r = .error .overflowError)
      (meter.daily keyId days today) n := by
  refine Follows.bind (P := fun r n' => r = UsageMeter.dates days today) (Follows.ofExcept_iff.mpr rfl) ?_ ?_
  · rintro ds n' hds
    obtain ⟨ds, h, hlen⟩ | h := @dates_ok days today
    · cases hds.trans h
      refine (read_follows hc).bind ?_ fun x n' h => h.elim
      rintro rows n' ⟨hrows, hsound⟩
      obtain ⟨us, hus, huslen, hparts⟩ := @mapM_dailyUsage (ds.zip rows) fun x hx => hsound _ (List.of_mem_zip hx).2
      refine Follows.ofExcept_iff.mpr (Or.inl ⟨us, hus, ?_, hparts⟩)
      rw [huslen, List.length_zip, hrows, Nat.min_self, hlen]
    · cases hds.trans h
  · intro x n' hx
    obtain ⟨ds, h, -⟩ | h := @dates_ok days today
    · cases hx.trans h
    · exact Or.inr (by cases hx.trans h; rfl)

theorem watch_sound : (watch meter).Sound := by
  intro c
  cases c with
  | record r =>
    refine Follows.map (Follows.bind (send_follows (Nat.zero_add _) List.drop_zero.symm) (fun _ _ h => h) fun _ _ h => h)
  | daily keyId days today =>
    refine Follows.map ((daily_follows fun {_ _ _} => .daily).mono ?_)
    rintro r n (⟨us, rfl, -, hparts⟩ | rfl)
    · exact hparts
    · rfl
  | usage principal days today =>
    refine Follows.map (Follows.bind (daily_follows fun {_ _ _} => .usage) ?_ ?_)
    · rintro us n (⟨us, h, hlen, hparts⟩ | h)
      · cases h
        cases hlast : us.getLast? with
        | none =>
          obtain rfl := List.getLast?_eq_none_iff.mp hlast
          exact Or.inr hlen.symm
        | some last => exact ⟨hparts, totals_partitioned hparts⟩
      · cases h
    · rintro x n (⟨us, h, -⟩ | h)
      · cases h
      · exact Or.inl (by cases h; rfl)

end Follow

/-! ### The ledger of a day -/

/-- An API key and a day. -/
abbrev Account := String × Date

/-- The key of an account. -/
def Account.key (k : Account) : String := usageKey k.1 k.2

/-- The account that a recording is charged to. -/
def Recording.account (r : Recording) : Account := (r.keyId, r.day)

theorem key_inj {r : Recording} {k : Account} (h : usageKey r.keyId r.day = k.key) : r.account = k :=
  have ⟨hkey, hday⟩ := usageKey_inj h
  Prod.ext hkey hday

section Runs
variable {meter : UsageMeter}

/-- The calls of `record` on an account that have started, newest first. -/
def recordings (k : Account) : List (system meter).Event → List Recording
  | [] => []
  | .start _ (.record r) :: tr => if r.account = k then r :: recordings k tr else recordings k tr
  | _ :: tr => recordings k tr

/-- A call of `record` on the account is under way. -/
def Busy (k : Account) (w : Pool meter) : Prop := ∃ i r p, w.threads i = some ⟨.record r, p⟩ ∧ r.account = k

/-- The key of the account is there. -/
def Kept (k : Account) (w : Pool meter) : Prop := (live? w.state.now w.state.store k.key).isSome = true

/-- A key is lost only while no call of `record` on its account is under way. -/
def ExpiresIdle (w : Pool meter) (a : (system meter).Act) : Prop :=
  ∀ k w', w.step a = some w' → Kept k w → ¬Kept k w' → ¬Busy k w'

/-- The key of the account is not lost. -/
def Keeps (k : Account) (w : Pool meter) (a : (system meter).Act) : Prop := ∀ w', w.step a = some w' → Kept k w → Kept k w'

/-! #### Shares of the running calls -/

/-- What a call has added to the account, and what it is going to have added; nothing after its last command. -/
def share (meter : UsageMeter) (k : Account) : Call × Nat → Amounts × Amounts
  | (.record r, n) =>
    if r.account = k ∧ n < (meter.commands r).length then (effect ((meter.commands r).take n), effect (meter.commands r)) else 0
  | _ => 0

theorem share_of_ne {k : Account} {r : Recording} {n : Nat} (h : r.account ≠ k) : share meter k (.record r, n) = 0 :=
  if_neg fun hk => h hk.1

theorem share_done {k : Account} {r : Recording} {n : Nat} (h : (meter.commands r).length ≤ n) :
    share meter k (.record r, n) = 0 :=
  if_neg fun hk => Nat.not_lt.mpr h hk.2

theorem share_eq {r : Recording} {n : Nat} (h : n < (meter.commands r).length) :
    share meter r.account (.record r, n) = (effect ((meter.commands r).take n), effect (meter.commands r)) :=
  if_pos ⟨rfl, h⟩

theorem effect_sound {r : Recording} : effect (meter.commands r) ∈ sound := by
  have := @effect_take_sound meter r (meter.commands r).length
  rwa [List.take_length] at this

theorem share_sound {k : Account} {x : Call × Nat} : share meter k x ∈ sound.prod sound := by
  unfold share
  split
  · split
    · exact ⟨effect_take_sound, effect_sound⟩
    · exact zero_mem _
  · exact zero_mem _

/-- What the calls on an account add to it in all. -/
def asked (meter : UsageMeter) (calls : List Recording) : Amounts := (calls.map fun r => effect (meter.commands r)).sum

/-- What an account holds is settled or the share of a call under way, and so is what the calls since `older` ask for.
    `forgets` tells that the key may have been lost since `start`. -/
def Ledger (forgets : Prop) (start : List (system meter).Event) (k : Account) (s : State) (tr : List (system meter).Event)
    (Γ : Nat → Option (Call × Nat)) : Prop :=
  ∃ since older settled row, tr = since ++ older ∧ settled ∈ sound ∧ hash? s.now s.store k.key = some row ∧
    Sums Γ (share meter k) (amounts row - settled, asked meter (recordings k since) - settled) ∧ (¬forgets → older = start)

section Steps
variable {forgets : Prop} {start tr : List (system meter).Event} {k : Account} {s s' : State} {Γ : Nat → Option (Call × Nat)}
  {i n : Nat} {r : Recording} {v : (system meter).Event}

theorem Ledger.row (h : Ledger forgets start k s tr Γ) : ∃ row, hash? s.now s.store k.key = some row ∧ amounts row ∈ sound := by
  obtain ⟨since, older, settled, row, -, hsettled, hrow, hsums, -⟩ := h
  refine ⟨row, hrow, ?_⟩
  have := sound.add_mem hsettled (hsums.closed (S := sound.prod sound) fun _ _ _ => share_sound).1
  rwa [add_sub_cancel] at this

/-- A step on which the account does not depend. -/
theorem Ledger.pass (h : Ledger forgets start k s tr Γ) {x : Option (Call × Nat)} (hv : ∀ since, recordings k (v :: since) = recordings k since)
    (hrow : hash? s'.now s'.store k.key = hash? s.now s.store k.key)
    (hx : entryAmount (share meter k) x = entryAmount (share meter k) (Γ i)) :
    Ledger forgets start k s' (v :: tr) (Function.update Γ i x) := by
  obtain ⟨since, older, settled, row, rfl, hsettled, hrow', hsums, hold⟩ := h
  refine ⟨v :: since, older, settled, row, rfl, hsettled, hrow.trans hrow', ?_, hold⟩
  have := hsums.update i x
  rwa [hx, sub_add_cancel, ← hv since] at this

/-- A call starts: it is going to add what it asks for. -/
theorem Ledger.begin (h : Ledger forgets start r.account s tr Γ) (hi : Γ i = none) :
    Ledger forgets start r.account s (.start i (.record r) :: tr) (Function.update Γ i (some (.record r, 0))) := by
  obtain ⟨since, older, settled, row, rfl, hsettled, hrow, hsums, hold⟩ := h
  refine ⟨.start i (.record r) :: since, older, settled, row, rfl, hsettled, hrow, ?_, hold⟩
  have := hsums.update i (some (.record r, 0))
  rw [hi, entryAmount_none, sub_zero, entryAmount_some, share_eq commands_length_pos] at this
  rw [recordings, if_pos rfl, asked, List.map_cons, List.sum_cons]
  convert this using 1
  refine Prod.ext ?_ ?_
  · simp [effect]
  · simp only [asked, Prod.mk_add_mk]
    abel

/-- A call counts on. -/
theorem Ledger.count {cmd : Cmd ℚ} (h : Ledger forgets start r.account s tr Γ) (hi : Γ i = some (.record r, n))
    (hcmd : (meter.commands r)[n]? = some cmd) (hlen : n + 1 < (meter.commands r).length)
    (hrow : ∀ row, hash? s.now s.store r.account.key = some row → amounts row ∈ sound →
      ∃ row', hash? s'.now s'.store r.account.key = some row' ∧ amounts row' = amounts row + adds cmd)
    (hv : ∀ since, recordings r.account (v :: since) = recordings r.account since) :
    Ledger forgets start r.account s' (v :: tr) (Function.update Γ i (some (.record r, n + 1))) := by
  obtain ⟨row₀, hrow₀, hsound⟩ := h.row
  obtain ⟨since, older, settled, row, rfl, hsettled, hrow₁, hsums, hold⟩ := h
  obtain rfl : row = row₀ := Option.some.inj (hrow₁.symm.trans hrow₀)
  obtain ⟨row', hrow', hadds⟩ := hrow row hrow₁ hsound
  refine ⟨v :: since, older, settled, row', rfl, hsettled, hrow', ?_, hold⟩
  have := hsums.update i (some (.record r, n + 1))
  rw [hi, entryAmount_some, entryAmount_some, share_eq hlen, share_eq (Nat.lt_of_succ_lt hlen), effect_take_succ hcmd] at this
  rw [hv, hadds]
  convert this using 1
  refine Prod.ext ?_ ?_
  · simp only [Prod.mk_add_mk, Prod.mk_sub_mk]
    abel
  · simp

/-- A call has sent its last command, and all that it asks for is settled. -/
theorem Ledger.settle {cmd : Cmd ℚ} (h : Ledger forgets start r.account s tr Γ) (hi : Γ i = some (.record r, n))
    (hcmd : (meter.commands r)[n]? = some cmd) (hlen : n + 1 = (meter.commands r).length) (hadds : adds cmd = 0)
    (hrow : hash? s'.now s'.store r.account.key = hash? s.now s.store r.account.key)
    (hv : ∀ since, recordings r.account (v :: since) = recordings r.account since) :
    Ledger forgets start r.account s' (v :: tr) (Function.update Γ i (some (.record r, n + 1))) := by
  obtain ⟨since, older, settled, row, rfl, hsettled, hrow₁, hsums, hold⟩ := h
  refine ⟨v :: since, older, settled + effect (meter.commands r), row, rfl, sound.add_mem hsettled effect_sound,
    hrow.trans hrow₁, ?_, hold⟩
  have hall : effect ((meter.commands r).take n) = effect (meter.commands r) := by
    have := effect_take_succ hcmd
    rwa [hlen, List.take_length, hadds, add_zero, eq_comm] at this
  have := hsums.update i (some (.record r, n + 1))
  rw [hi, entryAmount_some, entryAmount_some, share_eq (by omega), share_done hlen.ge, add_zero, hall] at this
  rw [hv]
  convert this using 1
  refine Prod.ext ?_ ?_
  · exact sub_add_eq_sub_sub _ _ _
  · exact sub_add_eq_sub_sub _ _ _

/-- The key is lost while no call is under way: the account is begun anew. -/
theorem Ledger.lose {m : Amounts × Amounts} (hf : ¬forgets → tr = start) (hsums : Sums Γ (share meter k) m)
    (hidle : ∀ i x, Γ i = some x → share meter k x = 0) (hlost : live? s.now s.store k.key = none) :
    Ledger forgets start k s tr Γ := by
  refine ⟨[], tr, 0, ∅, rfl, zero_mem _, hash?_of_absent hlost, ?_, hf⟩
  obtain rfl := hsums.eq_zero hidle
  convert hsums using 1
  exact Prod.ext (sub_zero _) (sub_zero _)

/-- Time goes on, or nothing happens to the key. -/
theorem Ledger.keep (h : Ledger forgets start k s tr Γ) (hrow : hash? s'.now s'.store k.key = hash? s.now s.store k.key) :
    Ledger forgets start k s' tr Γ := by
  obtain ⟨since, older, settled, row, rfl, hsettled, hrow', hsums, hold⟩ := h
  exact ⟨since, older, settled, row, rfl, hsettled, hrow.trans hrow', hsums, hold⟩

end Steps

/-- Keys are lost where `forgets` allows it, and while no call is under way; no call keeps the others from theirs. -/
def Loses (forgets : Account → Prop) (w : Pool meter) (a : (system meter).Act) : Prop :=
  (∀ k w', w.step a = some w' → Kept k w → ¬Kept k w' → forgets k ∧ ¬Busy k w') ∧ w.busy = fun _ => none

theorem park_state {w : Pool meter} {i : Nat} {c : Call} {p : (system meter).Program} : (w.park i c p).state = w.state := by
  cases p <;> rfl

theorem kept_iff {k : Account} {w : Pool meter} : ¬Kept k w ↔ live? w.state.now w.state.store k.key = none := by
  unfold Kept
  rw [Bool.not_eq_true, Option.isSome_eq_false_iff, Option.isNone_iff_eq_none]

/-- Where nobody is at work on an account, no running call has a share in it. -/
theorem share_idle {w : Pool meter} {Γ : (watch meter).Board} (hshows : (watch meter).Shows w Γ) {k : Account} {i : Nat} {x : Call × Nat}
    (hidle : ∀ r p, w.threads i = some ⟨.record r, p⟩ → r.account ≠ k) (hx : Γ i = some x) : share meter k x = 0 := by
  obtain ⟨c, n⟩ := x
  cases c with
  | record r =>
    obtain ⟨p, hp⟩ := hshows.thread hx
    exact share_of_ne (hidle r p hp)
  | daily => rfl
  | usage => rfl

section Sending
variable {forgets : Account → Prop} {start : List (system meter).Event} {w : Pool meter} {Γ : Nat → Option (Call × Nat)}
  {i n : Nat} {r : Recording} {choice : Unit} {s : State} {cmd : Cmd ℚ} {reply : Except Exn (Redis.Reply ℚ)}
  {kont : Except Exn (Redis.Reply ℚ) → (system meter).Program}

/-- The last command of a call: its account goes on, or is lost and nobody else is at work on it. -/
theorem expire_ledger (hshows : (watch meter).Shows w Γ) (hJ : Ledger (forgets r.account) start r.account w.state w.trace Γ)
    (hi : Γ i = some (.record r, n)) (hget : (meter.commands r)[n]? = some cmd) (hlen : n + 1 = (meter.commands r).length)
    (hcmd : cmd = .expire r.account.key meter.retentionSeconds)
    (hs : s = { w.state with store := (Redis.exec w.state.now cmd w.state.store).2 })
    (hstep : w.step (.op i choice) = some ((w.did i (.record r) (.redis cmd) reply s (kont reply)).park i (.record r) (kont reply)))
    (hP : Loses forgets w (.op i choice)) :
    Ledger (forgets r.account) start r.account s (.did i (.record r) (.redis cmd) reply :: w.trace)
      (Function.update Γ i (some (.record r, n + 1))) := by
  subst hcmd
  have settle (hrow : hash? s.now s.store r.account.key = hash? w.state.now w.state.store r.account.key) := hJ.settle
    (v := .did i (.record r) (.redis (.expire r.account.key meter.retentionSeconds)) reply) hi hget hlen rfl hrow fun _ => rfl
  rcases @exec_expire_hash _ _ w.state.now meter.retentionSeconds w.state.store r.account.key with hlost | hkept
  · have hlost : live? s.now s.store r.account.key = none := by
      rw [hs]
      exact hlost
    cases hlive : live? w.state.now w.state.store r.account.key with
    | none => exact settle (by rw [hash?_of_absent hlive, hash?_of_absent hlost])
    | some entry =>
      obtain ⟨hforgets, hidle⟩ := hP.1 r.account _ hstep (by simp [Kept, hlive]) (by rwa [kept_iff, park_state])
      obtain ⟨_, _, _, _, -, -, -, hsums, -⟩ := hJ
      refine Ledger.lose (fun h => absurd hforgets h) (hsums.update i (some (.record r, n + 1))) (fun j x hx => ?_) hlost
      rcases board_entry hx with ⟨-, rfl⟩ | ⟨hj, hx⟩
      · exact share_done hlen.ge
      · refine share_idle hshows (fun r' p hp hr' => hidle ⟨j, r', p, ?_, hr'⟩) hx
        exact (World.step_threads hstep fun h => hj (Option.some.inj h).symm).trans hp
  · exact settle (by rw [hs]; exact hkept)

theorem send_ledger (hshows : (watch meter).Shows w Γ) (hJ : ∀ k, Ledger (forgets k) start k w.state w.trace Γ)
    (hi : Γ i = some (.record r, n)) (hget : (meter.commands r)[n]? = some cmd)
    (hs : s = { w.state with store := (Redis.exec w.state.now cmd w.state.store).2 })
    (hstep : w.step (.op i choice) = some ((w.did i (.record r) (.redis cmd) reply s (kont reply)).park i (.record r) (kont reply)))
    (hP : Loses forgets w (.op i choice)) (k : Account) :
    Ledger (forgets k) start k s (.did i (.record r) (.redis cmd) reply :: w.trace)
      (Function.update Γ i (some (.record r, n + 1))) := by
  by_cases hk : r.account = k
  · subst hk
    rcases commands_get hget with ⟨hlen, hincr⟩ | ⟨hlen, hcmd⟩
    · exact (hJ _).count hi hget hlen (fun row hrow hsound => hs ▸ increments_row hincr hrow hsound) fun _ => rfl
    · exact expire_ledger hshows (hJ _) hi hget hlen hcmd hs hstep hP
  · refine (hJ k).pass (fun since => rfl) ?_ ?_
    · rw [hs]
      refine hash?_congr (exec_frame ?_)
      have hwrites : cmd.writes = [usageKey r.keyId r.day] := by
        rcases commands_get hget with ⟨-, hincr⟩ | ⟨-, rfl⟩
        · exact increments_writes hincr
        · rfl
      rw [hwrites, List.mem_singleton]
      exact fun h => hk (key_inj h.symm)
    · rw [hi]
      exact (share_of_ne hk).trans (share_of_ne hk).symm

/-- A key is read, and everything stays as it is. -/
theorem read_ledger {c : Call} {keyId : String} {day : Date} {row : Except Exn Row}
    (hJ : ∀ k, Ledger (forgets k) start k w.state w.trace Γ) (hi : Γ i = some (c, n))
    (hexec : exec (.hgetall (usageKey keyId day)) () w.state = some (row, s)) :
    Fits (.hgetall (usageKey keyId day)) row ∧
      ∀ k, Ledger (forgets k) start k s (.did i c (.hgetall (usageKey keyId day)) row :: w.trace)
        (Function.update Γ i (some (c, n))) := by
  obtain ⟨found, hfound, hsound⟩ := (hJ (keyId, day)).row
  have hfound : hash? w.state.now w.state.store (usageKey keyId day) = some found := hfound
  simp only [exec, hfound, Option.some.injEq] at hexec
  obtain ⟨rfl, rfl⟩ := hexec
  exact ⟨hsound, fun k => (hJ k).pass (fun since => rfl) rfl (by rw [hi])⟩

end Sending

/-- What every step keeps: the ledgers, and that what was read hides nothing. -/
def Books (forgets : Account → Prop) (start : List (system meter).Event) (s : State) (tr : List (system meter).Event)
    (Γ : Nat → Option (Call × Nat)) : Prop :=
  (∀ k, Ledger (forgets k) start k s tr Γ) ∧ ∀ i c r, .ended i c r ∈ tr → Answers c r

theorem ended_mem {i : Nat} {c : Call} {r : Except Exn Result} {v : (system meter).Event} {tr : List (system meter).Event}
    (hv : ∀ i c r, v ≠ .ended i c r) (h : .ended i c r ∈ v :: tr) : .ended i c r ∈ tr :=
  (List.mem_cons.mp h).resolve_left fun h => hv i c r h.symm

theorem rules (forgets : Account → Prop) (start : List (system meter).Event) :
    Rules (watch meter) (Loses forgets) (Books forgets start) where
  start := by
    rintro w Γ i c - ⟨hJ, hanswers⟩ hi - -
    refine ⟨fun k => ?_, fun j d r h => hanswers j d r (ended_mem (fun _ _ _ h => by cases h) h)⟩
    cases c with
    | record r =>
      by_cases hk : r.account = k
      · subst hk
        exact (hJ _).begin hi
      · refine (hJ k).pass (fun since => if_neg hk) rfl ?_
        rw [hi]
        exact share_of_ne hk
    | daily => exact (hJ k).pass (fun since => rfl) rfl (by rw [hi]; rfl)
    | usage => exact (hJ k).pass (fun since => rfl) rfl (by rw [hi]; rfl)
  op := by
    rintro w Γ i choice c n e reply s hshows ⟨hJ, hanswers⟩ hi hthread hmay hexec hP
    have hanswers : ∀ j d r, .ended j d r ∈ .did i c e reply :: w.trace → Answers d r :=
      fun j d r h => hanswers j d r (ended_mem (fun _ _ _ h => by cases h) h)
    cases hmay with
    | @send r n cmd hget =>
      obtain ⟨kont, hthread⟩ := hthread
      have hstep : w.step (.op i choice) = some ((w.did i (.record r) _ reply s (kont reply)).park i (.record r) (kont reply)) := by
        simp [World.step, hthread, World.free, hP.2, hexec]
      exact ⟨_, ⟨trivial, rfl⟩, send_ledger hshows hJ hi hget (by cases hexec; rfl) hstep hP, hanswers⟩
    | daily =>
      obtain ⟨hfits, hJ'⟩ := read_ledger hJ hi hexec
      exact ⟨n, ⟨hfits, rfl⟩, hJ', hanswers⟩
    | usage =>
      obtain ⟨hfits, hJ'⟩ := read_ledger hJ hi hexec
      exact ⟨n, ⟨hfits, rfl⟩, hJ', hanswers⟩
  ended := by
    rintro s tr Γ i c n r ⟨hJ, hanswers⟩ hi hlast
    refine ⟨fun k => (hJ k).pass (fun since => rfl) rfl ?_, fun j d x h => ?_⟩
    · rw [hi]
      cases c with
      | record r =>
        obtain rfl : n = (meter.commands r).length := hlast
        exact (share_done le_rfl).symm
      | daily => rfl
      | usage => rfl
    · rcases List.mem_cons.mp h with h | h
      · cases h
        cases c with
        | record => trivial
        | daily => exact hlast
        | usage => exact hlast
      · exact hanswers j d x h
  kill := by
    intro w Γ i c n _ _ _ hm
    cases hm
  env := by
    rintro w Γ (ms : Nat) s hshows ⟨hJ, hanswers⟩ hs hP
    refine ⟨fun k => ?_, hanswers⟩
    have hstep : w.step (.env ms) = some { w with state := s } := by simp [World.step, hs]
    obtain rfl := Option.some.inj hs
    rcases live?_later (Nat.le_add_right w.state.now ms) (s := w.state.store) (k := k.key) with hlost | hsame
    · cases hlive : live? w.state.now w.state.store k.key with
      | none => exact (hJ k).keep (by rw [hash?_of_absent hlive]; exact hash?_of_absent hlost)
      | some entry =>
        obtain ⟨hforgets, hidle⟩ := hP.1 k _ hstep (by simp [Kept, hlive]) (kept_iff.mpr hlost)
        obtain ⟨_, _, _, _, -, -, -, hsums, -⟩ := hJ k
        exact Ledger.lose (fun h => absurd hforgets h) hsums
          (fun i x hx => share_idle hshows (fun r p hp hr => hidle ⟨i, r, p, hp, hr⟩) hx) hlost
    · refine (hJ k).keep ?_
      show hash? (w.state.now + ms) w.state.store k.key = hash? w.state.now w.state.store k.key
      rw [hash?, value?, hsame, hash?, value?]

/-! ### The law -/

/-- The row of a day with these calls. -/
def expected (date : Date) (calls : List Recording) : DailyUsage :=
  let hits := calls.filter fun r => r.usage.cached
  let misses := calls.filter fun r => !r.usage.cached
  let hosted := misses.filter fun r => r.usage.selfHosted
  { date
    requests := calls.length
    cacheHits := hits.length
    promptTokens := (misses.map fun r => (r.usage.promptTokens : Int)).sum
    completionTokens := (misses.map fun r => (r.usage.completionTokens : Int)).sum
    costUsd := (misses.map fun r => r.usage.costUsd).sum
    costSavedUsd := (hits.map fun r => r.usage.costSavedUsd).sum
    selfHostedRequests := hosted.length
    selfHostedCostUsd := (hosted.map fun r => r.usage.costUsd).sum }

/-- The amounts are those of the row. -/
structure Shown (v : Amounts) (u : DailyUsage) : Prop where
  requests : v "requests" = u.requests
  cacheHits : v "cache_hits" = u.cacheHits
  promptTokens : v "prompt_tokens" = u.promptTokens
  completionTokens : v "completion_tokens" = u.completionTokens
  costUsd : v "cost_usd" = u.costUsd
  costSavedUsd : v "cost_saved_usd" = u.costSavedUsd
  selfHostedRequests : v "self_hosted_requests" = u.selfHostedRequests
  selfHostedCostUsd : v "self_hosted_cost_usd" = u.selfHostedCostUsd

theorem asked_shown {date : Date} {calls : List Recording} : Shown (asked meter calls) (expected date calls) := by
  induction calls with
  | nil => exact ⟨rfl, rfl, rfl, rfl, rfl, rfl, rfl, rfl⟩
  | cons r calls ih =>
    obtain ⟨h₁, h₂, h₃, h₄, h₅, h₆, h₇, h₈⟩ := ih
    have hcons : asked meter (r :: calls) = effect (meter.commands r) + asked meter calls := rfl
    cases hc : r.usage.cached <;> cases hs : r.usage.selfHosted
    all_goals
      constructor
      all_goals
        simp [hcons, effect, UsageMeter.commands, adds, expected, hc, hs, h₁, h₂, h₃, h₄, h₅, h₆, h₇, h₈, add_comm (1 : ℚ)]

/-- What `HGETALL` finds of the amounts is read as the row. -/
theorem Shown.read {row : Row} {u : DailyUsage} (h : Shown (amounts row) u) : dailyUsage u.date row = .ok u := by
  have hint {f : String} {n : Int} (hf : amounts row f = n) : intField row f = .ok n := by
    unfold amounts floatField at hf
    unfold intField
    cases hl : row.lookup f with
    | none =>
      rw [hl] at hf
      exact congrArg Except.ok (Int.cast_eq_zero.mp hf.symm).symm
    | some q =>
      rw [hl] at hf
      obtain rfl : q = n := hf
      rfl
  have hcost : floatField row "cost_usd" = u.costUsd := h.costUsd
  have hsaved : floatField row "cost_saved_usd" = u.costSavedUsd := h.costSavedUsd
  have hhosted : floatField row "self_hosted_cost_usd" = u.selfHostedCostUsd := h.selfHostedCostUsd
  rw [dailyUsage, hint h.requests, hint h.cacheHits, hint h.promptTokens, hint h.completionTokens, hint h.selfHostedRequests,
    hcost, hsaved, hhosted]
  rfl

/-- The condition of the steps, with what is known of the places. -/
theorem reaches_loses {P : Pool meter → (system meter).Act → Prop} {forgets : Account → Prop} {w w' : Pool meter}
    (hP : ∀ w a k w', P w a → w.step a = some w' → Kept k w → ¬Kept k w' → forgets k ∧ ¬Busy k w')
    (hquiet : w.busy = fun _ => none) (h : World.Reaches P w w') : World.Reaches (Loses forgets) w w' := by
  refine (h.strengthen (I := fun w => w.busy = fun _ => none) fun w₁ h₁ => h₁.quiet (fun _ => rfl) hquiet).mono ?_
  exact fun w a ⟨hp, hbusy⟩ => ⟨fun k w' => hP w a k w' hp, hbusy⟩

theorem empty_shows : (watch meter).Shows (emptyPool meter) fun _ => none := fun _ => rfl

theorem empty_books {forgets : Account → Prop} :
    Books forgets ([] : List (system meter).Event) ({} : State) [] fun _ => none := by
  refine ⟨fun k => ⟨[], [], 0, ∅, rfl, zero_mem _, rfl, ?_, fun _ => rfl⟩, fun _ _ _ h => by cases h⟩
  convert Sums.empty using 1
  exact Prod.ext (sub_zero _) (sub_zero _)

/-- Where the key is gone and nobody is at work on the account, its ledger is begun anew. -/
theorem Books.anew {start : List (system meter).Event} {w : Pool meter} {Γ : (watch meter).Board} {k : Account}
    (h : Books (fun _ => True) start w.state w.trace Γ) (hshows : (watch meter).Shows w Γ) (hlost : ¬Kept k w) (hidle : ¬Busy k w) :
    Books (fun k' => k' ≠ k) w.trace w.state w.trace Γ := by
  refine ⟨fun k' => ?_, h.2⟩
  obtain ⟨since, older, settled, row, htrace, hsettled, hrow, hsums, -⟩ := h.1 k'
  by_cases hk : k' = k
  · subst hk
    exact Ledger.lose (fun _ => rfl) hsums (fun i x hx => share_idle hshows (fun r p hp hr => hidle ⟨i, r, p, hp, hr⟩) hx)
      (kept_iff.mp hlost)
  · exact ⟨since, older, settled, row, htrace, hsettled, hrow, hsums, fun h => absurd hk h⟩

/-- While nobody is at work on an account, it holds what the calls since `start` asked for. -/
theorem Ledger.idle {start : List (system meter).Event} {w : Pool meter} {Γ : (watch meter).Board} {k : Account} {forgets : Prop}
    (h : Ledger forgets start k w.state w.trace Γ) (hshows : (watch meter).Shows w Γ) (hidle : ¬Busy k w) (hforgets : ¬forgets) :
    ∃ since row, w.trace = since ++ start ∧ hash? w.state.now w.state.store k.key = some row ∧
      dailyUsage k.2 row = .ok (expected k.2 (recordings k since)) := by
  obtain ⟨since, older, settled, row, htrace, -, hrow, hsums, hold⟩ := h
  obtain rfl := hold hforgets
  have hzero := hsums.eq_zero fun i x hx => share_idle hshows (fun r p hp hr => hidle ⟨i, r, p, hp, hr⟩) hx
  obtain ⟨hheld, hasked⟩ := Prod.ext_iff.mp hzero
  have hall : amounts row = asked meter (recordings k since) := (sub_eq_zero.mp hheld).trans (sub_eq_zero.mp hasked).symm
  exact ⟨since, row, htrace, hrow, (hall ▸ asked_shown : Shown (amounts row) (expected k.2 (recordings k since))).read⟩

end Runs

/-- Nothing that is read in a run hides a negative number. -/
def ReadsHideNothing (meter : UsageMeter) (P : Pool meter → (system meter).Act → Prop) : Prop :=
  ∀ w, World.Reaches P (emptyPool meter) w → ∀ i c r, .ended i c r ∈ w.trace → Answers c r

/-- What `HGETALL` answers for the account is the row of the calls. -/
def ReadsAs (k : Account) (calls : List Recording) (s : State) : Prop :=
  ∃ row, exec (.hgetall k.key) () s = some (.ok row, s) ∧ dailyUsage k.2 row = .ok (expected k.2 calls) ∧
    (expected k.2 calls).Partitioned

/-- From where the key of an account is not there, until it is lost again, the account holds what the calls add up to
    whenever none is under way. -/
def AddsUp (meter : UsageMeter) : Prop :=
  ∀ w w' k, World.Reaches ExpiresIdle (emptyPool meter) w → ¬Kept k w → ¬Busy k w →
    World.Reaches (fun w a => ExpiresIdle w a ∧ Keeps k w a) w w' → ¬Busy k w' →
    ∃ since, w'.trace = since ++ w.trace ∧ ReadsAs k (recordings k since) w'.state

theorem usage_law (meter : UsageMeter) : ReadsHideNothing meter ExpiresIdle ∧ AddsUp meter := by
  have hbooks {w : Pool meter} (h : World.Reaches ExpiresIdle (emptyPool meter) w) :
      ∃ Γ, (watch meter).Shows w Γ ∧ Books (fun _ => True) [] w.state w.trace Γ :=
    (rules _ _).reaches watch_sound (reaches_loses (fun w a k w' hp hs hk hk' => ⟨trivial, hp k w' hs hk hk'⟩) rfl h)
      ⟨_, empty_shows, empty_books⟩
  constructor
  · intro w h
    obtain ⟨Γ, -, -, hanswers⟩ := hbooks h
    exact hanswers
  · intro w w' k h hlost hidle h' hidle'
    obtain ⟨Γ, hshows, hbooks⟩ := hbooks h
    obtain ⟨Γ', hshows', hledger, -⟩ := (rules (fun k' => k' ≠ k) w.trace).reaches watch_sound
      (reaches_loses (fun w a k' w' hp hs hk hk' => ⟨fun heq => hk' (heq ▸ hp.2 w' hs (heq ▸ hk)), hp.1 k' w' hs hk hk'⟩)
        (h.quiet (fun _ => rfl) rfl) h')
      ⟨Γ, hshows, hbooks.anew hshows hlost hidle⟩
    obtain ⟨since, row, htrace, hrow, hread⟩ := (hledger k).idle hshows' hidle' (not_not.mpr rfl)
    obtain ⟨row', hrow', hsound⟩ := (hledger k).row
    obtain rfl : row = row' := Option.some.inj (hrow.symm.trans hrow')
    obtain ⟨u, hu, hpart⟩ := dailyUsage_sound hsound k.2
    obtain rfl : expected k.2 (recordings k since) = u := Except.ok.inj (hread.symm.trans hu)
    exact ⟨since, htrace, row, by simp only [exec, hrow], hread, hpart⟩

/-! ### Keys that expire -/

/-- The same without a condition on when keys expire. -/
def AlwaysAddsUp (meter : UsageMeter) : Prop :=
  ∀ w k, World.Reaches World.anyStep (emptyPool meter) w → ¬Busy k w → ReadsAs k (recordings k w.trace) w.state

def hit : Recording where
  keyId := "k"
  day := ⟨2026, 9, 18, by decide, by decide, by decide⟩
  usage := { cached := true, costSavedUsd := 1 }
  cost_nonneg := le_rfl
  saved_nonneg := by decide +kernel

/-- A cache hit is recorded, and ninety days go by. -/
def idleRun (meter : UsageMeter) : List (system meter).Act :=
  [.start 0 (.record hit), .op 0 (), .op 0 (), .op 0 (), .op 0 (), .env (90 * 86400 * 1000 : Nat)]

/-- The key expires when a second call has counted its request and not yet the cache hit; then the day is read. -/
def splitRun (meter : UsageMeter) : List (system meter).Act :=
  [.start 0 (.record hit), .op 0 (), .op 0 (), .op 0 (), .op 0 (), .start 1 (.record hit), .op 1 (),
    .env (90 * 86400 * 1000 : Nat), .op 1 (), .start 2 (.daily "k" 1 hit.day), .op 2 ()]

/-- A row with more cache hits than requests has been read. -/
def hides {meter : UsageMeter} : (system meter).Event → Bool
  | .ended _ (.daily _ _ _) (.ok (.rows days)) => days.any fun u => decide (u.requests < u.cacheHits + u.selfHostedRequests)
  | _ => false

theorem not_answers_of_hides {meter : UsageMeter} {v : (system meter).Event} (h : hides v = true) :
    ∃ i c r, v = .ended i c r ∧ ¬Answers c r := by
  unfold hides at h
  split at h
  · rename_i i k d t days
    obtain ⟨u, hu, hlt⟩ := List.any_eq_true.mp h
    refine ⟨_, _, _, rfl, fun hparts => ?_⟩
    have hkinds := (hparts u hu).kinds
    have hlt := of_decide_eq_true hlt
    omega
  · cases h

theorem not_usage_law : ¬ReadsHideNothing ⟨90⟩ World.anyStep ∧ ¬AlwaysAddsUp ⟨90⟩ := by
  constructor
  · intro h
    have hrun : ((emptyPool ⟨90⟩).run (splitRun ⟨90⟩)).any (fun w => w.trace.any hides) = true := by decide +kernel
    obtain ⟨w, hw, hany⟩ := (Option.any_eq_true _ _).mp hrun
    obtain ⟨v, hv, hhides⟩ := List.any_eq_true.mp hany
    obtain ⟨i, c, r, rfl, hnot⟩ := not_answers_of_hides hhides
    exact hnot (h w (World.reaches_of_run (fun _ _ _ => trivial) hw) i c r hv)
  · intro h
    have hrun : ((emptyPool ⟨90⟩).run (idleRun ⟨90⟩)).any (fun w => (w.threads 0).isNone && (recordings hit.account w.trace).length == 1 &&
        (exec (.hgetall hit.account.key) () w.state).any fun o => o.1.toOption.any fun row => row.entries.isEmpty) = true := by
      decide +kernel
    obtain ⟨w, hw, hcheck⟩ := (Option.any_eq_true _ _).mp hrun
    simp only [Bool.and_eq_true, beq_iff_eq] at hcheck
    obtain ⟨⟨hnone, hone⟩, hempty⟩ := hcheck
    have hidle : ¬Busy hit.account w := by
      rintro ⟨i, r, p, hi, -⟩
      cases i with
      | zero =>
        rw [hi] at hnone
        cases hnone
      | succ i =>
        have hkept := World.run_threads (i := i + 1) (by simp [idleRun, Act.thread]) hw
        rw [hi] at hkept
        cases hkept
    obtain ⟨row, hrow, hread, -⟩ := h w hit.account (World.reaches_of_run (fun _ _ _ => trivial) hw) hidle
    rw [hrow] at hempty
    obtain rfl : row = ∅ := AList.ext (List.isEmpty_iff.mp hempty)
    have hrequests : (0 : Int) = (recordings hit.account w.trace).length := congrArg DailyUsage.requests (Except.ok.inj hread)
    omega

end NexusGate.Core.Metering
