import NexusGate.Async.Prog

/-! # Running a coroutine on its own

Surroundings that answer every operation at once, from a state of their own: a coroutine then runs to its
end, and two coroutines can be compared by the runs they make from related states. -/

namespace Async

/-- What an operation is answered, and what the surroundings are afterwards. -/
abbrev Handler (E : Type) (R : E → Type) (ε σ : Type) := (e : E) → σ → Except ε (R e) × σ

namespace Prog
variable {E : Type} {R : E → Type} {ε σ α β : Type} (h : Handler E R ε σ)

def run : Prog E R ε α → σ → Except ε α × σ
  | .ret a, s => (.ok a, s)
  | .throw x, s => (.error x, s)
  | .op e k, s => (k (h e s).1).run (h e s).2

@[simp] theorem run_ret (a : α) (s : σ) : (ret a : Prog E R ε α).run h s = (.ok a, s) := rfl
@[simp] theorem run_throw (x : ε) (s : σ) : (throw x : Prog E R ε α).run h s = (.error x, s) := rfl

@[simp] theorem run_ofExcept (r : Except ε α) (s : σ) : (ofExcept r : Prog E R ε α).run h s = (r, s) := by
  cases r <;> rfl

@[simp] theorem run_call (e : E) (s : σ) : (call e : Prog E R ε (R e)).run h s = h e s := by
  simp only [call, run, run_ofExcept]

@[simp] theorem run_bind (p : Prog E R ε α) (f : α → Prog E R ε β) (s : σ) :
    (p.bind f).run h s = match p.run h s with
      | (.ok a, s') => (f a).run h s'
      | (.error x, s') => (.error x, s') := by
  induction p generalizing s with
  | ret a => rfl
  | throw x => rfl
  | op e k ih => exact ih _ _

@[simp] theorem run_attempt (p : Prog E R ε α) (s : σ) :
    p.attempt.run h s = (.ok (p.run h s).1, (p.run h s).2) := by
  induction p generalizing s with
  | ret a => rfl
  | throw x => rfl
  | op e k ih => exact ih _ _

end Prog

/-- From state `s` the coroutine ends as `Q` says. -/
def Ends {E : Type} {R : E → Type} {ε σ α : Type} (h : Handler E R ε σ) (p : Prog E R ε α) (s : σ)
    (Q : Except ε α → σ → Prop) : Prop :=
  Q (p.run h s).1 (p.run h s).2

namespace Ends
variable {E : Type} {R : E → Type} {ε σ α β : Type} {h : Handler E R ε σ} {s : σ}

theorem ret {a : α} {Q : Except ε α → σ → Prop} (hq : Q (.ok a) s) : Ends h (.ret a : Prog E R ε α) s Q := hq

theorem throw {x : ε} {Q : Except ε α → σ → Prop} (hq : Q (.error x) s) : Ends h (.throw x : Prog E R ε α) s Q := hq

theorem call {e : E} {Q : Except ε (R e) → σ → Prop} (hq : Q (h e s).1 (h e s).2) : Ends h (.call e) s Q := by
  rwa [Ends, Prog.run_call]

theorem mono {p : Prog E R ε α} {P Q : Except ε α → σ → Prop} (hp : Ends h p s P) (hPQ : ∀ r s', P r s' → Q r s') :
    Ends h p s Q :=
  hPQ _ _ hp

/-- What a sequence comes to, part by part. -/
theorem bind_iff {p : Prog E R ε α} {f : α → Prog E R ε β} {Q : Except ε β → σ → Prop} :
    Ends h (p.bind f) s Q ↔ Ends h p s fun r s' => match r with
      | .ok a => Ends h (f a) s' Q
      | .error x => Q (.error x) s' := by
  unfold Ends
  rw [Prog.run_bind]
  rcases p.run h s with ⟨x | a, s'⟩ <;> exact Iff.rfl

theorem bind {p : Prog E R ε α} {f : α → Prog E R ε β} {P : Except ε α → σ → Prop} {Q : Except ε β → σ → Prop}
    (hp : Ends h p s P) (hok : ∀ a s', P (.ok a) s' → Ends h (f a) s' Q)
    (herr : ∀ x s', P (.error x) s' → Q (.error x) s') : Ends h (p.bind f) s Q :=
  bind_iff.mpr <| hp.mono fun r s' h => match r with
    | .ok a => hok a s' h
    | .error x => herr x s' h

/-- An operation that is answered, and what comes after it. -/
theorem step {e : E} {a : R e} {s' : σ} {f : R e → Prog E R ε β} {Q : Except ε β → σ → Prop} (he : h e s = (.ok a, s'))
    (hf : Ends h (f a) s' Q) : Ends h ((Prog.call e).bind f) s Q := by
  refine bind_iff.mpr (call ?_)
  rw [he]
  exact hf

theorem attempt {p : Prog E R ε α} {Q : Except ε (Except ε α) → σ → Prop}
    (hp : Ends h p s fun r s' => Q (.ok r) s') : Ends h p.attempt s Q := by
  unfold Ends at hp ⊢
  rwa [Prog.run_attempt]

/-- What every operation that is handed out keeps holds at the end. -/
theorem hands {ok : E → Prop} {I : σ → Prop} (keep : ∀ e s, ok e → I s → I (h e s).2) {p : Prog E R ε α}
    (hp : Hands ok p) : I s → Ends h p s fun _ s' => I s' := by
  induction p generalizing s with
  | ret a => exact id
  | throw x => exact id
  | op e k ih => exact fun hI => ih _ (hp.2 _ () trivial) (keep e s hp.1 hI)

end Ends

/-- What a coroutine does however it is answered, it does in surroundings that answer as its monitor expects. -/
theorem Follows.ends {E : Type} {R : E → Type} {ε σ α : Type} {h : Handler E R ε σ} {M : Monitor E R ε Unit}
    (hnext : ∀ e s, M.next () e (h e s).1 ()) {Q : Except ε α → Unit → Prop} {p : Prog E R ε α} :
    Follows M Q p () → ∀ s, Ends h p s fun r _ => Q r () := by
  induction p with
  | ret a => exact fun hq _ => hq
  | throw x => exact fun hq _ => hq
  | op e k ih => exact fun hf s => ih _ (hf.2 _ () (hnext e s)) _

/-- Every operation of the run from a state comes in a state in which `ok` allows it. -/
def Along {E : Type} {R : E → Type} {ε σ α : Type} (h : Handler E R ε σ) (ok : E → σ → Prop) : Prog E R ε α → σ → Prop
  | .ret _, _ | .throw _, _ => True
  | .op e k, s => ok e s ∧ Along h ok (k (h e s).1) (h e s).2

namespace Along
variable {E : Type} {R : E → Type} {ε σ α β : Type} {h : Handler E R ε σ} {ok : E → σ → Prop}

theorem bind_iff {p : Prog E R ε α} {f : α → Prog E R ε β} : ∀ {s : σ},
    Along h ok (p.bind f) s ↔ Along h ok p s ∧ ∀ a, (p.run h s).1 = .ok a → Along h ok (f a) (p.run h s).2 := by
  induction p with
  | ret a => exact ⟨fun hf => ⟨trivial, fun b hb => by cases hb; exact hf⟩, fun hf => hf.2 a rfl⟩
  | throw x => exact ⟨fun _ => ⟨trivial, nofun⟩, fun _ => trivial⟩
  | op e k ih => exact (and_congr_right fun _ => ih _).trans and_assoc.symm

theorem attempt_iff {p : Prog E R ε α} : ∀ {s : σ}, Along h ok p.attempt s ↔ Along h ok p s := by
  induction p with
  | ret a => exact Iff.rfl
  | throw x => exact Iff.rfl
  | op e k ih => exact and_congr_right fun _ => ih _

theorem call_iff {e : E} {s : σ} : Along h ok (.call e) s ↔ ok e s := by
  show ok e s ∧ Along h ok (Prog.ofExcept (h e s).1) (h e s).2 ↔ ok e s
  cases (h e s).1 <;> exact and_iff_left trivial

/-- What is allowed in every state is allowed along every run. -/
theorem hands {may : E → Prop} (hok : ∀ e s, may e → ok e s) {p : Prog E R ε α} (hp : Hands may p) :
    ∀ s, Along h ok p s := by
  induction p with
  | ret a => exact fun _ => trivial
  | throw x => exact fun _ => trivial
  | op e k ih => exact fun s => ⟨hok e s hp.1, ih _ (hp.2 _ () trivial) _⟩

end Along

/-! ## Two coroutines side by side -/

section
variable {E : Type} {R : E → Type} {ε σ τ α β : Type}

/-- From related states the two coroutines come to the same outcome and to related states. -/
def Alike (h : Handler E R ε σ) (h' : Handler E R ε τ) (ρ : σ → τ → Prop) (p q : Prog E R ε α) : Prop :=
  ∀ s t, ρ s t → (p.run h s).1 = (q.run h' t).1 ∧ ρ (p.run h s).2 (q.run h' t).2

namespace Alike
variable {h : Handler E R ε σ} {h' : Handler E R ε τ} {ρ : σ → τ → Prop}

theorem ret (a : α) : Alike h h' ρ (.ret a) (.ret a) := fun _ _ hst => ⟨rfl, hst⟩

theorem throw (x : ε) : Alike h h' ρ (.throw x : Prog E R ε α) (.throw x) := fun _ _ hst => ⟨rfl, hst⟩

theorem ofExcept (r : Except ε α) : Alike h h' ρ (.ofExcept r) (.ofExcept r) := fun s t hst => by
  simpa only [Prog.run_ofExcept] using ⟨trivial, hst⟩

theorem call {e : E} (he : ∀ s t, ρ s t → (h e s).1 = (h' e t).1 ∧ ρ (h e s).2 (h' e t).2) :
    Alike h h' ρ (.call e) (.call e) := fun s t hst => by
  simpa only [Prog.run_call] using he s t hst

theorem bind {p q : Prog E R ε α} {f g : α → Prog E R ε β} (hp : Alike h h' ρ p q)
    (hf : ∀ a, Alike h h' ρ (f a) (g a)) : Alike h h' ρ (p.bind f) (q.bind g) := by
  intro s t hst
  obtain ⟨hr, hρ⟩ := hp s t hst
  simp only [Prog.run_bind]
  generalize p.run h s = o at hr hρ
  generalize q.run h' t = o' at hr hρ
  obtain ⟨r, s'⟩ := o
  obtain ⟨r', t'⟩ := o'
  obtain rfl : r = r' := hr
  cases r with
  | ok a => exact hf a s' t' hρ
  | error x => exact ⟨rfl, hρ⟩

theorem attempt {p q : Prog E R ε α} (hp : Alike h h' ρ p q) : Alike h h' ρ p.attempt q.attempt := by
  intro s t hst
  obtain ⟨hr, hρ⟩ := hp s t hst
  simp only [Prog.run_attempt]
  exact ⟨congrArg Except.ok hr, hρ⟩

end Alike
end
end Async
