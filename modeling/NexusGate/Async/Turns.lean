import NexusGate.Async.Lives

/-! # Turns

Between two suspensions a call has its place for itself: once it has come to an operation that does not suspend,
no other call of that place takes a step before it does. -/

namespace Async.System
variable {S : System}

namespace World
variable {w w' : S.World} {i j : Nat} {c : S.Call} {p : S.Program} {choice : S.Choice}

/-- Every call that is in the middle of a turn keeps its place busy. -/
def Held (w : S.World) : Prop :=
  ∀ i c e k, w.threads i = some ⟨c, .op e k⟩ → S.sync e = true → life i w.trace ≠ [] → w.busy (S.place c) = some i

/-- A step is taken by a call whose place is free. -/
theorem step_free (hs : w.step (.op i choice) = some w') (ht : w.threads i = some ⟨c, p⟩) :
    ∃ e k r s, p = .op e k ∧ w.free i c = true ∧ S.exec e choice w.state = some (r, s) ∧
      w' = (w.did i c e r s (k r)).park i c (k r) := by
  simp only [step, ht] at hs
  split at hs
  · rename_i c' e k heq
    cases heq
    split at hs
    · rename_i hfree
      obtain ⟨⟨r, s⟩, hex, rfl⟩ := Option.map_eq_some_iff.mp hs
      exact ⟨e, k, r, s, rfl, hfree, hex, rfl⟩
    · cases hs
  · cases hs

theorem park_busy : (w.park i c p).busy = w.busy := by cases p <;> rfl

/-- What a call leaves busy, it leaves busy for itself. -/
theorem step_busy (hs : w.step (.op i choice) = some w') (ht : w.threads i = some ⟨c, p⟩)
    (hbusy : w'.busy (S.place c) = some j) : j = i := by
  obtain ⟨e, k, r, s, -, -, -, rfl⟩ := step_free hs ht
  rw [park_busy] at hbusy
  have hbusy : Function.update w.busy (S.place c) (if headSync (k r) then some i else none) (S.place c) = some j := hbusy
  rw [Function.update_self] at hbusy
  split at hbusy
  · exact (Option.some.inj hbusy).symm
  · cases hbusy

/-- A call that ends, or goes on, changes nothing about the others. -/
theorem park_other (hji : j ≠ i) :
    (w.park i c p).threads j = w.threads j ∧ life j (w.park i c p).trace = life j w.trace := by
  cases p with
  | op e k => exact ⟨Function.update_of_ne hji .., rfl⟩
  | ret a => exact ⟨Function.update_of_ne hji .., life_other hji.symm⟩
  | throw x => exact ⟨Function.update_of_ne hji .., life_other hji.symm⟩

/-- A call that has just been left at an operation has come there with the program given. -/
theorem park_own {t : S.Thread} (ht : (w.park i c p).threads i = some t) :
    t = ⟨c, p⟩ ∧ (w.park i c p).trace = w.trace := by
  cases p with
  | op e k =>
    have ht : Function.update w.threads i (some ⟨c, .op e k⟩) i = some t := ht
    rw [Function.update_self] at ht
    exact ⟨(Option.some.inj ht).symm, rfl⟩
  | ret a | throw x =>
    have ht : Function.update w.threads i none i = some t := ht
    rw [Function.update_self] at ht
    cases ht

/-- A call goes on under its own name. -/
theorem step_call (hs : w.step (.op i choice) = some w') (ht : w.threads i = some ⟨c, p⟩) {t : S.Thread}
    (ht' : w'.threads i = some t) : t.call = c := by
  obtain ⟨e, k, r, s, -, -, -, rfl⟩ := step_free hs ht
  rw [(park_own ht').1]

/-- What holds of a call holds on where nothing is changed about it. -/
theorem Held.frame (h : w.Held) (hthreads : w'.threads j = w.threads j) (hlife : life j w'.trace = life j w.trace)
    (hbusy : ∀ place, w.busy place = some j → w'.busy place = some j) {e : S.Op} {k : Except S.Exn (S.Reply e) → S.Program}
    (ht : w'.threads j = some ⟨c, .op e k⟩) (hsync : S.sync e = true) (hne : life j w'.trace ≠ []) :
    w'.busy (S.place c) = some j :=
  hbusy _ (h j c e k (hthreads ▸ ht) hsync (hlife ▸ hne))

theorem Held.step {a : S.Act} (h : w.Held) (hs : w.step a = some w') : w'.Held := by
  intro j c' e' k' ht hsync hne
  cases a with
  | start i c =>
    rw [World.step] at hs
    split at hs
    · cases hs
      by_cases hji : j = i
      · subst hji
        rw [(park_own ht).2] at hne
        exact absurd life_start hne
      · obtain ⟨hthreads, hlife⟩ := @park_other _ (w.log (.start i c)) i j c (S.body c) hji
        exact h.frame hthreads (hlife.trans (life_other (Ne.symm hji))) (fun _ hbusy => by rw [park_busy]; exact hbusy) ht hsync hne
    · cases hs
  | op i choice =>
    simp only [World.step] at hs
    split at hs
    · rename_i c e k hi
      split at hs
      · rename_i hfree
        obtain ⟨⟨r, s⟩, -, rfl⟩ := Option.map_eq_some_iff.mp hs
        by_cases hji : j = i
        · subst hji
          obtain ⟨hthread, -⟩ := park_own ht
          obtain ⟨rfl, hp⟩ := Thread.mk.inj hthread
          dsimp only at hp
          rw [park_busy]
          show Function.update w.busy (S.place c') (if headSync (k r) then some j else none) (S.place c') = some j
          rw [Function.update_self, ← hp]
          exact if_pos hsync
        · obtain ⟨hthreads, hlife⟩ := @park_other _ (w.did i c e r s (k r)) i j c (k r) hji
          refine h.frame hthreads (hlife.trans (life_other (Ne.symm hji))) (fun place hbusy => ?_) ht hsync hne
          have hplace : place ≠ S.place c := by
            rintro rfl
            simp only [free, hbusy, beq_iff_eq] at hfree
            exact hji hfree
          rw [park_busy]
          exact (Function.update_of_ne hplace ..).trans hbusy
      · cases hs
    · cases hs
  | kill i =>
    simp only [World.step] at hs
    split at hs
    · rename_i t hi
      split at hs
      · cases hs
        have ht : Function.update w.threads i none j = some _ := ht
        have hji : j ≠ i := (clear_entry ht).1
        refine h.frame (Function.update_of_ne hji ..) (life_other hji.symm) (fun place hbusy => ?_) ht hsync hne
        show Function.update w.busy _ _ place = some j
        rw [Function.update_apply]
        split
        · rename_i hplace
          rw [← hplace, hbusy, if_neg fun hi => hji (Option.some.inj hi)]
        · exact hbusy
      · cases hs
    · cases hs
  | env b =>
    obtain ⟨s, -, rfl⟩ := Option.map_eq_some_iff.mp hs
    exact h j c' e' k' ht hsync hne

/-- From a world in which no call is running, whatever run there is. -/
theorem Reaches.held {P : S.World → S.Act → Prop} (h : Reaches P w w') (h0 : ∀ i, w.threads i = none) : w'.Held :=
  h.invariant (I := Held) (fun _ _ _ hheld _ hs => hheld.step hs) fun i _ _ _ ht => by
    rw [h0 i] at ht
    cases ht

end World
end Async.System
