import NexusGate.Async.Pool

/-! # One call at a time

The runs of a pool in which a single call goes on: what such a run does to the state is read off its
program, part by part, and every such run is one of the pool. -/

namespace Async.System
variable {S : System}

/-- Alone, a call that is at `p` in state `s` can come to be at `q` in state `t`. -/
inductive Solo (S : System) : S.Program → S.State → S.Program → S.State → Prop
  | refl {p s} : Solo S p s p s
  | op {e k s r s' q t} (c : S.Choice) (h : S.exec e c s = some (r, s')) (rest : Solo S (k r) s' q t) :
    Solo S (.op e k) s q t

/-- The same for a part of a program, which has a result of its own. -/
inductive Stretch (S : System) {α : Type} : Prog S.Op S.Reply S.Exn α → S.State → Except S.Exn α → S.State → Prop
  | ret {a s} : Stretch S (.ret a) s (.ok a) s
  | throw {x s} : Stretch S (.throw x) s (.error x) s
  | op {e k s r s' q t} (c : S.Choice) (h : S.exec e c s = some (r, s')) (rest : Stretch S (k r) s' q t) :
    Stretch S (.op e k) s q t

namespace Stretch
variable {α β : Type} {p : Prog S.Op S.Reply S.Exn α} {s s' t : S.State}

theorem call {e : S.Op} {r : Except S.Exn (S.Reply e)} (c : S.Choice) (h : S.exec e c s = some (r, s')) :
    Stretch S (.call e) s r s' := by
  refine .op c h ?_
  cases r
  · exact .throw
  · exact .ret

theorem bind {f : α → Prog S.Op S.Reply S.Exn β} {a : α} {r : Except S.Exn β} (hp : Stretch S p s (.ok a) s')
    (hf : Stretch S (f a) s' r t) : Stretch S (p.bind f) s r t := by
  generalize ho : Except.ok a = o at hp
  induction hp with
  | ret =>
    cases ho
    exact hf
  | throw => cases ho
  | op c h _ ih => exact .op c h (ih hf ho)

theorem map {f : α → β} {a : α} (hp : Stretch S p s (.ok a) s') : Stretch S (f <$> p) s (.ok (f a)) s' := hp.bind .ret

theorem attempt {r : Except S.Exn α} (hp : Stretch S p s r s') : Stretch S p.attempt s (.ok r) s' := by
  induction hp with
  | ret => exact .ret
  | throw => exact .ret
  | op c h _ ih => exact .op c h ih

/-- A part that comes to its end, and what follows it. -/
theorem solo {f : α → S.Program} {a : α} {q : S.Program} (hp : Stretch S p s (.ok a) s') (hf : Solo S (f a) s' q t) :
    Solo S (p.bind f) s q t := by
  generalize ho : Except.ok a = o at hp
  induction hp with
  | ret =>
    cases ho
    exact hf
  | throw => cases ho
  | op c h _ ih => exact .op c h (ih hf ho)

/-- A whole program. -/
theorem toSolo {p : S.Program} {r : Except S.Exn S.Result} (hp : Stretch S p s r s') :
    Solo S p s (Prog.ofExcept r) s' := by
  induction hp with
  | ret => exact .refl
  | throw => exact .refl
  | op c h _ ih => exact .op c h ih

end Stretch

namespace World

/-- Call `c` runs as `i` and is at `p`, or is over; no other call keeps its place busy. -/
structure At (w : S.World) (i : Nat) (c : S.Call) (p : S.Program) : Prop where
  thread : w.threads i = match p with
    | .op e k => some ⟨c, .op e k⟩
    | _ => none
  free : w.free i c = true

theorem At.park {w : S.World} {i : Nat} {c : S.Call} {p : S.Program} (h : w.free i c = true) :
    At (w.park i c p) i c p := by
  cases p <;> exact ⟨Function.update_self .., h⟩

theorem At.start {w : S.World} {i : Nat} {c : S.Call} (hi : w.threads i = none) (ha : S.admits w.state c = true)
    (hf : w.free i c = true) : ∃ w', w.step (.start i c) = some w' ∧ w'.state = w.state ∧ At w' i c (S.body c) := by
  refine ⟨(w.log (.start i c)).park i c (S.body c), ?_, ?_, At.park hf⟩
  · simp [step, hi, ha]
  · cases S.body c <;> rfl

theorem At.op {w : S.World} {i : Nat} {c : S.Call} {e : S.Op} {k : Except S.Exn (S.Reply e) → S.Program}
    {ch : S.Choice} {r : Except S.Exn (S.Reply e)} {s : S.State} (h : At w i c (.op e k))
    (he : S.exec e ch w.state = some (r, s)) : ∃ w', w.step (.op i ch) = some w' ∧ w'.state = s ∧ At w' i c (k r) := by
  refine ⟨(w.did i c e r s (k r)).park i c (k r), ?_, ?_, At.park ?_⟩
  · simp [step, h.thread, h.free, he]
  · cases k r <;> rfl
  · unfold World.free World.did
    cases headSync (k r) <;> simp

/-- Every run of a call on its own is a run of the pool. -/
theorem At.reaches {w : S.World} {i : Nat} {c : S.Call} {p q : S.Program} {t : S.State} (h : At w i c p)
    (hs : Solo S p w.state q t) : ∃ w', Reaches (fun _ a => ∃ ch, a = .op i ch) w w' ∧ w'.state = t ∧ At w' i c q := by
  generalize hws : w.state = s at hs
  induction hs generalizing w with
  | refl => exact ⟨w, .refl, hws, h⟩
  | op ch he _ ih =>
    obtain ⟨w₁, h₁, hs₁, hat₁⟩ := At.op h (hws ▸ he)
    obtain ⟨w', hr, hs', hat'⟩ := ih hat₁ hs₁
    exact ⟨w', .head ⟨_, ⟨ch, rfl⟩, h₁⟩ hr, hs', hat'⟩

theorem Reaches.mono {P Q : S.World → S.Act → Prop} (hPQ : ∀ w a, P w a → Q w a) {w w' : S.World}
    (h : Reaches P w w') : Reaches Q w w' :=
  Relation.ReflTransGen.mono (fun _ _ ⟨a, hp, hs⟩ => ⟨a, hPQ _ _ hp, hs⟩) _ _ h

end World
end Async.System
