import Mathlib.Logic.Basic

/-! # Asynchronous programs

A coroutine runs until it reaches an operation, hands it to its surroundings, and goes on with the
answer: a value, or an exception raised at that point. `Prog` is the tree of everything a coroutine may
do. A `try` around a part of it is `attempt`, which turns the outcome of the part into a value. -/

namespace Async

/-- A coroutine: it returns, raises, or waits at an operation `e` for an answer. -/
inductive Prog (E : Type) (R : E → Type) (ε α : Type) : Type
  | ret (a : α)
  | throw (x : ε)
  | op (e : E) (k : Except ε (R e) → Prog E R ε α)

namespace Prog
variable {E : Type} {R : E → Type} {ε α β γ : Type}

def bind (p : Prog E R ε α) (f : α → Prog E R ε β) : Prog E R ε β :=
  match p with
  | .ret a => f a
  | .throw x => .throw x
  | .op e k => .op e fun r => (k r).bind f

instance : Monad (Prog E R ε) where
  pure := .ret
  bind := bind

/-- The outcome of a coroutine as a program. -/
def ofExcept : Except ε α → Prog E R ε α
  | .ok a => .ret a
  | .error x => .throw x

/-- Hand one operation to the surroundings. -/
def call (e : E) : Prog E R ε (R e) := .op e ofExcept

/-- Run a part of a coroutine and catch whatever it raises. -/
def attempt : Prog E R ε α → Prog E R ε (Except ε α)
  | .ret a => .ret (.ok a)
  | .throw x => .ret (.error x)
  | .op e k => .op e fun r => (k r).attempt

/-- `try: p  finally: f`. -/
def andFinally (p : Prog E R ε α) (f : Prog E R ε Unit) : Prog E R ε α :=
  p.attempt.bind fun r => f.bind fun _ => ofExcept r

@[simp] theorem pure_eq (a : α) : (pure a : Prog E R ε α) = .ret a := rfl
@[simp] theorem bind_eq (p : Prog E R ε α) (f : α → Prog E R ε β) : (p >>= f) = p.bind f := rfl
@[simp] theorem map_eq (f : α → β) (p : Prog E R ε α) : (f <$> p) = p.bind fun a => .ret (f a) := rfl
@[simp] theorem ret_bind (a : α) (f : α → Prog E R ε β) : (ret a : Prog E R ε α).bind f = f a := rfl
@[simp] theorem throw_bind (x : ε) (f : α → Prog E R ε β) : (throw x : Prog E R ε α).bind f = .throw x := rfl
@[simp] theorem op_bind (e : E) (k : Except ε (R e) → Prog E R ε α) (f : α → Prog E R ε β) :
    (op e k).bind f = .op e fun r => (k r).bind f := rfl
@[simp] theorem attempt_ret (a : α) : (ret a : Prog E R ε α).attempt = .ret (.ok a) := rfl
@[simp] theorem attempt_throw (x : ε) : (throw x : Prog E R ε α).attempt = .ret (.error x) := rfl
@[simp] theorem attempt_op (e : E) (k : Except ε (R e) → Prog E R ε α) :
    (op e k).attempt = .op e fun r => (k r).attempt := rfl

theorem bind_assoc (p : Prog E R ε α) (f : α → Prog E R ε β) (g : β → Prog E R ε γ) :
    (p.bind f).bind g = p.bind fun a => (f a).bind g := by
  induction p with
  | ret a => rfl
  | throw x => rfl
  | op e k ih => simp only [op_bind, ih]

theorem bind_ret (p : Prog E R ε α) : p.bind .ret = p := by
  induction p with
  | ret a => rfl
  | throw x => rfl
  | op e k ih => simp only [op_bind, ih]

instance : LawfulMonad (Prog E R ε) := LawfulMonad.mk' _ bind_ret (fun _ _ => rfl) bind_assoc

end Prog

/-! ## Monitors

A monitor follows one coroutine with a state of its own: `may` says which operations the coroutine may
hand out in a monitor state, `next` which monitor states an answer leads to. -/

/-- A monitor with states `G`. An answer with no next state is one that never comes. -/
structure Monitor (E : Type) (R : E → Type) (ε G : Type) where
  may : G → E → Prop
  next : G → (e : E) → Except ε (R e) → G → Prop

/-- Whatever the answers, `p` hands out only what the monitor allows, and ends as `Q` says. -/
def Follows {E : Type} {R : E → Type} {ε α G : Type} (M : Monitor E R ε G) (Q : Except ε α → G → Prop) :
    Prog E R ε α → G → Prop
  | .ret a, g => Q (.ok a) g
  | .throw x, g => Q (.error x) g
  | .op e k, g => M.may g e ∧ ∀ r g', M.next g e r g' → Follows M Q (k r) g'

namespace Follows
variable {E : Type} {R : E → Type} {ε α β G : Type} {M : Monitor E R ε G}

@[simp] theorem ret_iff {Q : Except ε α → G → Prop} {a : α} {g : G} : Follows M Q (.ret a) g ↔ Q (.ok a) g :=
  Iff.rfl

@[simp] theorem throw_iff {Q : Except ε α → G → Prop} {x : ε} {g : G} :
    Follows M Q (.throw x) g ↔ Q (.error x) g :=
  Iff.rfl

theorem op_iff {Q : Except ε α → G → Prop} {e : E} {k : Except ε (R e) → Prog E R ε α} {g : G} :
    Follows M Q (.op e k) g ↔ M.may g e ∧ ∀ r g', M.next g e r g' → Follows M Q (k r) g' :=
  Iff.rfl

theorem mono {Q Q' : Except ε α → G → Prop} (hQ : ∀ r g, Q r g → Q' r g) {p : Prog E R ε α} :
    ∀ {g : G}, Follows M Q p g → Follows M Q' p g := by
  induction p with
  | ret a => exact fun h => hQ _ _ h
  | throw x => exact fun h => hQ _ _ h
  | op e k ih => exact fun h => ⟨h.1, fun r g' hn => ih r (h.2 r g' hn)⟩

/-- What a sequence must do, part by part. -/
theorem bind_iff {Q : Except ε β → G → Prop} {p : Prog E R ε α} {f : α → Prog E R ε β} : ∀ {g : G},
    Follows M Q (p.bind f) g ↔ Follows M (fun r g' => match r with
      | .ok a => Follows M Q (f a) g'
      | .error x => Q (.error x) g') p g := by
  induction p with
  | ret a => exact Iff.rfl
  | throw x => exact Iff.rfl
  | op e k ih => simp only [Prog.op_bind, op_iff, ih, implies_true]

theorem attempt_iff {Q : Except ε (Except ε α) → G → Prop} {p : Prog E R ε α} : ∀ {g : G},
    Follows M Q p.attempt g ↔ Follows M (fun r g' => Q (.ok r) g') p g := by
  induction p with
  | ret a => exact Iff.rfl
  | throw x => exact Iff.rfl
  | op e k ih => simp only [Prog.attempt_op, op_iff, ih, implies_true]

theorem ofExcept_iff {Q : Except ε α → G → Prop} {r : Except ε α} {g : G} :
    Follows M Q (Prog.ofExcept r) g ↔ Q r g := by
  cases r <;> exact Iff.rfl

theorem call_iff {Q : Except ε (R e) → G → Prop} {g : G} :
    Follows M Q (Prog.call e) g ↔ M.may g e ∧ ∀ r g', M.next g e r g' → Q r g' := by
  simp only [Prog.call, op_iff, ofExcept_iff]

/-- Monitor states in which every operation is allowed, and which are never left. -/
theorem always {I : G → Prop} {Q : Except ε α → G → Prop} (hmay : ∀ g e, I g → M.may g e)
    (hnext : ∀ g e r g', I g → M.next g e r g' → I g') (hQ : ∀ r g, I g → Q r g) {p : Prog E R ε α} :
    ∀ {g : G}, I g → Follows M Q p g := by
  induction p with
  | ret a => exact fun h => hQ _ _ h
  | throw x => exact fun h => hQ _ _ h
  | op e k ih => exact fun h => ⟨hmay _ e h, fun r _ hn => ih r (hnext _ e r _ h hn)⟩

/-- Sequencing, with the two parts proved one after the other. -/
theorem bind {Q : Except ε β → G → Prop} {P : Except ε α → G → Prop} {p : Prog E R ε α}
    {f : α → Prog E R ε β} {g : G} (hp : Follows M P p g) (hok : ∀ a g', P (.ok a) g' → Follows M Q (f a) g')
    (herr : ∀ x g', P (.error x) g' → Q (.error x) g') : Follows M Q (p.bind f) g :=
  bind_iff.mpr <| hp.mono fun r g' h => match r with
    | .ok a => hok a g' h
    | .error x => herr x g' h

theorem map {Q : Except ε β → G → Prop} {p : Prog E R ε α} {f : α → β} {g : G}
    (h : Follows M (fun r => Q (r.map f)) p g) : Follows M Q (f <$> p) g :=
  h.bind (fun _ _ hq => hq) fun _ _ hq => hq

end Follows

/-- A monitor that need not be looking: nothing is known of a coroutine in state `none`. -/
def Monitor.partly {E : Type} {R : E → Type} {ε G : Type} (M : Monitor E R ε G) : Monitor E R ε (Option G) where
  may g e := ∀ p, g = some p → M.may p e
  next g e r g' := match g with
    | none => g' = none
    | some p => ∃ p', g' = some p' ∧ M.next p e r p'

namespace Follows
variable {E : Type} {R : E → Type} {ε α G : Type} {M : Monitor E R ε G} {Q : Except ε α → G → Prop}

theorem partly {p : Prog E R ε α} : ∀ {g : G}, Follows M Q p g →
    Follows M.partly (fun r g' => ∀ q, g' = some q → Q r q) p (some g) := by
  induction p with
  | ret a =>
    rintro g h q hq
    cases hq
    exact h
  | throw x =>
    rintro g h q hq
    cases hq
    exact h
  | op e k ih =>
    refine fun h => ⟨fun q hq => by cases hq; exact h.1, fun r g' hn => ?_⟩
    obtain ⟨p', rfl, hn⟩ := hn
    exact ih r (h.2 r p' hn)

theorem unwatched {p : Prog E R ε α} : Follows M.partly (fun r g' => ∀ q, g' = some q → Q r q) p none :=
  always (M := M.partly) (I := fun g => g = none) (fun _ _ hg q hq => by rw [hg] at hq; cases hq)
    (fun _ _ _ _ hg hn => by cases hg; exact hn) (fun _ _ hg q hq => by rw [hg] at hq; cases hq) rfl

end Follows

/-- Two monitors side by side. -/
def Monitor.both {E : Type} {R : E → Type} {ε G H : Type} (M : Monitor E R ε G) (N : Monitor E R ε H) :
    Monitor E R ε (G × H) where
  may g e := M.may g.1 e ∧ N.may g.2 e
  next g e r g' := M.next g.1 e r g'.1 ∧ N.next g.2 e r g'.2

/-- A monitor that allows everything and stays where it is. -/
def Monitor.idle {E : Type} {R : E → Type} {ε G : Type} : Monitor E R ε G where
  may _ _ := True
  next g _ _ g' := g' = g

namespace Follows
variable {E : Type} {R : E → Type} {ε α G H : Type}

theorem both {M : Monitor E R ε G} {N : Monitor E R ε H} {Q : Except ε α → G → Prop} {Q' : Except ε α → H → Prop}
    {p : Prog E R ε α} : ∀ {g : G} {h : H}, Follows M Q p g → Follows N Q' p h →
      Follows (M.both N) (fun r g => Q r g.1 ∧ Q' r g.2) p (g, h) := by
  induction p with
  | ret a => exact fun hM hN => ⟨hM, hN⟩
  | throw x => exact fun hM hN => ⟨hM, hN⟩
  | op e k ih => exact fun hM hN => ⟨⟨hM.1, hN.1⟩, fun r g' hn => ih r (hM.2 r g'.1 hn.1) (hN.2 r g'.2 hn.2)⟩

theorem idle {p : Prog E R ε α} {g : G} : Follows Monitor.idle (fun _ g' => g' = g) p g :=
  always (M := Monitor.idle) (I := fun g' => g' = g) (fun _ _ _ => trivial)
    (fun _ _ _ _ hg hn => Eq.trans hn hg) (fun _ _ hg => hg) rfl

/-- What a monitor says of the operations alone, as long as it always knows how to go on. -/
theorem forget {M : Monitor E R ε G} {N : Monitor E R ε Unit} {Q : Except ε α → G → Prop}
    (hmay : ∀ g e, M.may g e → N.may () e) (hnext : ∀ g e r, M.may g e → N.next () e r () → ∃ g', M.next g e r g')
    {p : Prog E R ε α} : ∀ {g : G}, Follows M Q p g → Follows N (fun _ _ => True) p () := by
  induction p with
  | ret a => exact fun _ => trivial
  | throw x => exact fun _ => trivial
  | op e k ih =>
    refine fun h => ⟨hmay _ _ h.1, fun r _ hn => ?_⟩
    obtain ⟨g', hg'⟩ := hnext _ e r h.1 hn
    exact ih r (h.2 r g' hg')

end Follows

/-- Every operation that the coroutine may hand out is one of these. -/
abbrev Hands {E : Type} {R : E → Type} {ε α : Type} (ok : E → Prop) (p : Prog E R ε α) : Prop :=
  Follows (⟨fun _ e => ok e, fun _ _ _ _ => True⟩ : Monitor E R ε Unit) (fun _ _ => True) p ()

namespace Hands
variable {E : Type} {R : E → Type} {ε α β : Type} {ok : E → Prop}

theorem bind {p : Prog E R ε α} {f : α → Prog E R ε β} (hp : Hands ok p) (hf : ∀ a, Hands ok (f a)) :
    Hands ok (p.bind f) :=
  Follows.bind hp (fun a _ _ => hf a) fun _ _ _ => trivial

theorem attempt {p : Prog E R ε α} (hp : Hands ok p) : Hands ok p.attempt := Follows.attempt_iff.mpr hp

theorem call {e : E} (he : ok e) : Hands ok (Prog.call e : Prog E R ε (R e)) :=
  Follows.call_iff.mpr ⟨he, fun _ _ _ => trivial⟩

theorem mono {ok' : E → Prop} (hok : ∀ e, ok e → ok' e) {p : Prog E R ε α} (hp : Hands ok p) : Hands ok' p := by
  induction p with
  | ret a => trivial
  | throw x => trivial
  | op e k ih => exact ⟨hok e hp.1, fun r g' _ => ih r (hp.2 r g' trivial)⟩

/-- A monitor that allows all that is handed out, in states that are never left. -/
theorem follows {G : Type} {M : Monitor E R ε G} {I : G → Prop} {Q : Except ε α → G → Prop}
    (hmay : ∀ g e, I g → ok e → M.may g e) (hnext : ∀ g e r g', I g → ok e → M.next g e r g' → I g')
    (hQ : ∀ r g, I g → Q r g) {p : Prog E R ε α} (hp : Hands ok p) : ∀ {g : G}, I g → Follows M Q p g := by
  induction p with
  | ret a => exact fun h => hQ _ _ h
  | throw x => exact fun h => hQ _ _ h
  | op e k ih => exact fun h => ⟨hmay _ e h hp.1, fun r _ hn => ih r (hp.2 r () trivial) (hnext _ e r _ h hp.1 hn)⟩

end Hands
end Async
