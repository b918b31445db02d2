import NexusGate.Async.Pool

/-! # What some calls of a pool do on their own

Calls that do not depend on the others can be run without them: whatever run of the pool there is, the same calls
alone take the same steps, get the same answers, and leave what is theirs of the state as it is. -/

namespace Async.System
variable {S : System}

/-- The call that takes part in an event. -/
def Event.call : S.Event → S.Call
  | .start _ c | .did _ c _ _ | .ended _ c _ | .killed _ c => c

/-- The calls that are `mine` see of the state only what the others do not change, and `R` tells that a state looks
    to them like another one. `ok` says what a call hands out. -/
structure Apart (S : System) (mine : S.Call → Bool) (ok : S.Call → S.Op → Prop) (R : S.State → S.State → Prop) :
    Prop where
  hands : ∀ c, Hands (ok c) (S.body c)
  suspends : ∀ e, S.sync e = false
  admits : ∀ {c s t}, R s t → mine c = true → S.admits s c = true → S.admits t c = true
  own : ∀ {c e choice s t o}, R s t → mine c = true → ok c e → S.exec e choice s = some o →
    ∃ t', S.exec e choice t = some (o.1, t') ∧ R o.2 t'
  foreign : ∀ {c e choice s t o}, R s t → mine c = false → ok c e → S.exec e choice s = some o → R o.2 t
  env : ∀ {a s t s'}, R s t → S.env a s = some s' → R s' t

/-- `v` is what is left of `w` when the other calls are taken out. -/
structure Projects (mine : S.Call → Bool) (ok : S.Call → S.Op → Prop) (R : S.State → S.State → Prop) (w v : S.World) :
    Prop where
  state : R w.state v.state
  threads : ∀ i, v.threads i = (w.threads i).filter fun t => mine t.call
  trace : v.trace = w.trace.filter fun e => mine e.call
  busy : v.busy = fun _ => none
  hands : ∀ i t, w.threads i = some t → Hands (ok t.call) t.prog

namespace Projects
variable {mine : S.Call → Bool} {ok : S.Call → S.Op → Prop} {R : S.State → S.State → Prop} {w v : S.World}

/-- A call of one's own is left at `p` in both. -/
theorem park_own (h : Projects mine ok R w v) {i : Nat} {c : S.Call} {p : S.Program} (hc : mine c = true)
    (hp : Hands (ok c) p) : Projects mine ok R (w.park i c p) (v.park i c p) := by
  have update (x : Option S.Thread) (hx : x = x.filter fun t => mine t.call) (j : Nat) :
      Function.update v.threads i x j = (Function.update w.threads i x j).filter fun t => mine t.call := by
    by_cases hj : j = i
    · subst hj
      simpa only [Function.update_self] using hx
    · simpa only [Function.update_of_ne hj] using h.threads j
  have hands (x : Option S.Thread) (hx : ∀ t, x = some t → Hands (ok t.call) t.prog) (j : Nat) (t : S.Thread)
      (ht : Function.update w.threads i x j = some t) : Hands (ok t.call) t.prog := by
    rw [Function.update_apply] at ht
    split at ht
    · exact hx t ht
    · exact h.hands j t ht
  cases p with
  | op e k =>
    refine ⟨h.state, update _ (by simp [Option.filter, hc]), h.trace, h.busy, hands _ fun t ht => ?_⟩
    cases ht
    exact hp
  | ret a | throw x =>
    refine ⟨h.state, update _ rfl, ?_, h.busy, hands _ nofun⟩
    show _ :: v.trace = List.filter _ (_ :: w.trace)
    rw [List.filter_cons_of_pos (by exact hc), h.trace]

/-- A call of somebody else's is left at `p`. -/
theorem park_foreign (h : Projects mine ok R w v) {i : Nat} {c : S.Call} {p : S.Program} (hc : mine c = false)
    (hi : v.threads i = none) (hp : Hands (ok c) p) : Projects mine ok R (w.park i c p) v := by
  have update (x : Option S.Thread) (hx : x.filter (fun t => mine t.call) = none) (j : Nat) :
      v.threads j = (Function.update w.threads i x j).filter fun t => mine t.call := by
    by_cases hj : j = i
    · subst hj
      rw [Function.update_self, hx, hi]
    · rw [Function.update_of_ne hj, h.threads j]
  have hands (x : Option S.Thread) (hx : ∀ t, x = some t → Hands (ok t.call) t.prog) (j : Nat) (t : S.Thread)
      (ht : Function.update w.threads i x j = some t) : Hands (ok t.call) t.prog := by
    rw [Function.update_apply] at ht
    split at ht
    · exact hx t ht
    · exact h.hands j t ht
  cases p with
  | op e k =>
    refine ⟨h.state, update _ (by simp [Option.filter, hc]), h.trace, h.busy, hands _ fun t ht => ?_⟩
    cases ht
    exact hp
  | ret a | throw x =>
    refine ⟨h.state, update _ rfl, ?_, h.busy, hands _ nofun⟩
    show v.trace = List.filter _ (_ :: w.trace)
    rw [List.filter_cons_of_neg (by rw [Event.call, hc]; exact Bool.false_ne_true), h.trace]

/-- A step is taken in both, or by somebody else. -/
theorem step (hapart : Apart S mine ok R) (h : Projects mine ok R w v) {a : S.Act} {w' : S.World}
    (hs : w.step a = some w') : ∃ v', (v' = v ∨ v.step a = some v') ∧ Projects mine ok R w' v' := by
  rcases World.step_cases hs with ⟨i, c, rfl, ht, hadmits, rfl⟩ | ⟨i, choice, c, e, k, r, s, rfl, ht, hexec, rfl⟩ |
    ⟨i, t, busy, rfl, ht, hmortal, rfl⟩ | ⟨b, s, rfl, hb, rfl⟩
  · have hi : v.threads i = none := by rw [h.threads, ht]; rfl
    cases hc : mine c with
    | true =>
      have hlog : Projects mine ok R (w.log (.start i c)) (v.log (.start i c)) := by
        refine ⟨h.state, h.threads, ?_, h.busy, h.hands⟩
        show _ :: v.trace = List.filter _ (_ :: w.trace)
        rw [List.filter_cons_of_pos (by exact hc), h.trace]
      refine ⟨_, .inr ?_, hlog.park_own hc (hapart.hands c)⟩
      have hadmits' := hapart.admits h.state hc hadmits
      simp [World.step, hi, hadmits']
    | false =>
      have hlog : Projects mine ok R (w.log (.start i c)) v := by
        refine ⟨h.state, h.threads, ?_, h.busy, h.hands⟩
        show v.trace = List.filter _ (_ :: w.trace)
        rw [List.filter_cons_of_neg (by rw [Event.call, hc]; exact Bool.false_ne_true), h.trace]
      exact ⟨v, .inl rfl, hlog.park_foreign hc hi (hapart.hands c)⟩
  · obtain ⟨hok, hk⟩ := Follows.op_iff.mp (h.hands i _ ht)
    have hk : Hands (ok c) (k r) := hk r () trivial
    cases hc : mine c with
    | true =>
      obtain ⟨t, hexec', hR⟩ := hapart.own h.state hc hok hexec
      have hi : v.threads i = some ⟨c, .op e k⟩ := by rw [h.threads, ht]; simp [Option.filter, hc]
      have hdid : Projects mine ok R (w.did i c e r s (k r)) (v.did i c e r t (k r)) := by
        refine ⟨hR, h.threads, ?_, ?_, h.hands⟩
        · show _ :: v.trace = List.filter _ (_ :: w.trace)
          rw [List.filter_cons_of_pos (by exact hc), h.trace]
        · have hhead : headSync (k r) = false := by
            cases k r with
            | op e' k' => exact hapart.suspends e'
            | ret a => rfl
            | throw x => rfl
          show Function.update v.busy _ _ = _
          rw [hhead, h.busy]
          exact Function.update_eq_self ..
      refine ⟨_, .inr ?_, hdid.park_own hc hk⟩
      have hfree : v.free i c = true := by simp [World.free, h.busy]
      simp [World.step, hi, hfree, hexec']
    | false =>
      have hi : v.threads i = none := by rw [h.threads, ht]; simp [Option.filter, hc]
      have hdid : Projects mine ok R (w.did i c e r s (k r)) v := by
        refine ⟨hapart.foreign h.state hc hok hexec, h.threads, ?_, h.busy, h.hands⟩
        show v.trace = List.filter _ (_ :: w.trace)
        rw [List.filter_cons_of_neg (by rw [Event.call, hc]; exact Bool.false_ne_true), h.trace]
      exact ⟨v, .inl rfl, hdid.park_foreign hc hi hk⟩
  · obtain ⟨c, p⟩ := t
    have hthreads (x : S.World) (hx : x.threads i = none) (hother : ∀ j, j ≠ i → x.threads j = v.threads j) (j : Nat) :
        x.threads j = (Function.update w.threads i none j).filter fun t => mine t.call := by
      by_cases hj : j = i
      · subst hj
        rw [hx, Function.update_self]
        rfl
      · rw [hother j hj, Function.update_of_ne hj, h.threads j]
    cases hc : mine c with
    | true =>
      have hi : v.threads i = some ⟨c, p⟩ := by rw [h.threads, ht]; simp [Option.filter, hc]
      refine ⟨{ v with
        threads := Function.update v.threads i none
        trace := .killed i c :: v.trace }, .inr ?_, h.state, ?_, ?_, h.busy, fun j t hj => h.hands j t (clear_entry hj).2⟩
      · have hmortal : S.mortal c = true := hmortal
        simp [World.step, hi, hmortal, h.busy]
      · exact hthreads _ (Function.update_self ..) fun j hj => Function.update_of_ne hj ..
      · show _ :: v.trace = List.filter _ (_ :: w.trace)
        rw [List.filter_cons_of_pos (by exact hc), h.trace]
    | false =>
      have hi : v.threads i = none := by rw [h.threads, ht]; simp [Option.filter, hc]
      refine ⟨v, .inl rfl, h.state, hthreads v hi fun _ _ => rfl, ?_, h.busy, fun j t hj => h.hands j t (clear_entry hj).2⟩
      show v.trace = List.filter _ (_ :: w.trace)
      rw [List.filter_cons_of_neg (by rw [Event.call, hc]; exact Bool.false_ne_true), h.trace]
  · exact ⟨v, .inl rfl, hapart.env h.state hb, h.threads, h.trace, h.busy, h.hands⟩

/-- A run is taken in both as far as it is one's own. -/
theorem reaches (hapart : Apart S mine ok R) (h : Projects mine ok R w v) {w' : S.World}
    (hr : World.Reaches World.anyStep w w') : ∃ v', World.Reaches World.anyStep v v' ∧ Projects mine ok R w' v' := by
  induction hr with
  | refl => exact ⟨v, .refl, h⟩
  | tail _ hn ih =>
    obtain ⟨a, -, hs⟩ := hn
    obtain ⟨v₁, hv₁, h₁⟩ := ih
    obtain ⟨v₂, rfl | hv₂, h₂⟩ := h₁.step hapart hs
    · exact ⟨_, hv₁, h₂⟩
    · exact ⟨_, hv₁.tail ⟨a, trivial, hv₂⟩, h₂⟩

end Projects
end Async.System
