import NexusGate.Theorems.Cache.Watch

/-! # What an operation does to the state -/

namespace NexusGate.Cache
open Async Async.System Redis Gateway

variable {embedder : String → Vec} {ch : Choice} {s s' : State}

theorem exec_redis {c : Cmd Blob} {a : Except Exn (Op.Reply (.redis c))}
    (h : exec embedder (.redis c) ch s = some (a, s')) :
    (s' = s ∧ ∃ x, a = .error x) ∨
      s' = { s with store := (Redis.exec s.now c s.store).2 }.settle ∧
        ∀ r, a = .ok r → r = (Redis.exec s.now c s.store).1 := by
  cases ch with
  | ok =>
    simp only [exec, Option.some.injEq, Prod.mk.injEq] at h
    obtain ⟨rfl, rfl⟩ := h
    refine Or.inr ⟨rfl, fun r hr => ?_⟩
    split at hr
    · cases hr
    · exact (Except.ok.inj hr).symm
  | lost applied =>
    simp only [exec, Option.some.injEq, Prod.mk.injEq] at h
    obtain ⟨rfl, rfl⟩ := h
    cases applied with
    | true => exact Or.inr ⟨rfl, nofun⟩
    | false => exact Or.inl ⟨rfl, _, rfl⟩
  | _ => cases h

theorem exec_multi {cs : List (Cmd Blob)} {a : Except Exn (Op.Reply (.multi cs))}
    (h : exec embedder (.multi cs) ch s = some (a, s')) :
    s' = s ∨ s' = { s with store := (Redis.execAll s.now cs s.store).2 }.settle := by
  cases ch with
  | ok =>
    simp only [exec, Option.some.injEq, Prod.mk.injEq] at h
    exact Or.inr h.2.symm
  | lost applied =>
    simp only [exec, Option.some.injEq, Prod.mk.injEq] at h
    cases applied with
    | true => exact Or.inr h.2.symm
    | false => exact Or.inl h.2.symm
  | _ => cases h

theorem exec_uuid {a : Except Exn (Op.Reply .uuid)} (h : exec embedder .uuid ch s = some (a, s')) :
    ∃ id, a = .ok id ∧ id ∉ s.drawn ∧ s' = { s with drawn := id :: s.drawn } := by
  cases ch with
  | id u =>
    simp only [exec] at h
    split at h
    · rename_i hu
      simp only [Bool.and_eq_true, decide_eq_true_eq] at hu
      obtain ⟨rfl, rfl⟩ := Prod.mk.inj (Option.some.inj h)
      exact ⟨u, rfl, hu.2, rfl⟩
    · cases h
  | _ => cases h

theorem exec_search {ns : String} {v : Vec} {a : Except Exn (Op.Reply (.search ns v))}
    (h : exec embedder (.search ns v) ch s = some (a, s')) :
    s' = s ∧ ∀ k dist, a = .ok (some (k, dist)) → s.tagged ns k = true := by
  cases ch with
  | doc found =>
    simp only [exec] at h
    split at h
    · rename_i hf
      obtain ⟨rfl, rfl⟩ := Prod.mk.inj (Option.some.inj h)
      refine ⟨rfl, fun k dist heq => ?_⟩
      cases heq
      exact hf
    · cases h
  | lost =>
    obtain ⟨rfl, rfl⟩ := Prod.mk.inj (Option.some.inj h)
    exact ⟨rfl, nofun⟩
  | _ => cases h

/-- The state that a page leaves, and what is on it. -/
theorem exec_scan {p : String} {a : Except Exn (Op.Reply (.scan p))} (h : exec embedder (.scan p) ch s = some (a, s')) :
    (s' = s ∧ ∃ x, a = .error x) ∨ ∃ left keys, a = .ok ⟨s.cursors, left, keys⟩ ∧
      s.allows p (s.matching p) left keys = true ∧ s' = { s with
        cursors := s.cursors + 1
        scans := Function.update s.scans s.cursors ((s.matching p).filter (· ∉ keys)) } := by
  cases ch with
  | page left keys =>
    simp only [exec] at h
    split at h
    · rename_i hp
      obtain ⟨rfl, rfl⟩ := Prod.mk.inj (Option.some.inj h)
      exact Or.inr ⟨left, keys, rfl, hp, rfl⟩
    · cases h
  | lost =>
    obtain ⟨rfl, rfl⟩ := Prod.mk.inj (Option.some.inj h)
    exact Or.inl ⟨rfl, _, rfl⟩
  | _ => cases h

theorem exec_scanNext {p : String} {cursor left : Nat} {a : Except Exn (Op.Reply (.scanNext p cursor left))}
    (h : exec embedder (.scanNext p cursor left) ch s = some (a, s')) :
    (s' = s ∧ ∃ x, a = .error x) ∨ ∃ keys, a = .ok keys ∧ s.allows p (s.scans cursor) left keys = true ∧
      s' = { s with scans := Function.update s.scans cursor ((s.scans cursor).filter (· ∉ keys)) } := by
  cases ch with
  | page _ keys =>
    simp only [exec] at h
    split at h
    · rename_i hp
      obtain ⟨rfl, rfl⟩ := Prod.mk.inj (Option.some.inj h)
      exact Or.inr ⟨keys, rfl, hp, rfl⟩
    · cases h
  | lost =>
    obtain ⟨rfl, rfl⟩ := Prod.mk.inj (Option.some.inj h)
    exact Or.inl ⟨rfl, _, rfl⟩
  | _ => cases h

theorem exec_embed {text : String} {a : Except Exn (Op.Reply (.embed text))}
    (h : exec embedder (.embed text) ch s = some (a, s')) : s' = s ∧ ∀ v, a = .ok v → v = embedder text := by
  cases ch with
  | ok =>
    obtain ⟨rfl, rfl⟩ := Prod.mk.inj (Option.some.inj h)
    exact ⟨rfl, fun v hv => (Except.ok.inj hv).symm⟩
  | fails =>
    obtain ⟨rfl, rfl⟩ := Prod.mk.inj (Option.some.inj h)
    exact ⟨rfl, nofun⟩
  | _ => cases h

theorem exec_clock {a : Except Exn (Op.Reply .clock)} (h : exec embedder .clock ch s = some (a, s')) : s' = s := by
  cases ch with
  | time q => exact (Prod.mk.inj (Option.some.inj h)).2.symm
  | _ => cases h

theorem mem_matching {s : State} {p k : String} :
    k ∈ s.matching p ↔ k ∈ s.store.keys ∧ p.toList <+: k.toList ∧ (live? s.now s.store k).isSome = true := by
  simp only [State.matching, List.mem_filter, List.isPrefixOf_iff_prefix, and_assoc]

theorem exec_honest : ∀ {e : Op} {a : Except Exn e.Reply}, exec embedder e ch s = some (a, s') → Honest embedder e a
  | .embed _, a, h => by
    cases a with
    | error => trivial
    | ok v => exact (exec_embed h).2 v rfl
  | .scan p, a, h => by
    rcases exec_scan h with ⟨-, x, rfl⟩ | ⟨left, keys, rfl, hp, -⟩
    · trivial
    · intro k hk
      have := List.all_eq_true.mp (Bool.and_eq_true_iff.mp hp).1 k hk
      exact (mem_matching.mp (of_decide_eq_true this)).2.1
  | .scanNext p _ _, a, h => by
    rcases exec_scanNext h with ⟨-, x, rfl⟩ | ⟨keys, rfl, hp, -⟩
    · trivial
    · intro k hk
      have := List.all_eq_true.mp (Bool.and_eq_true_iff.mp hp).1 k hk
      exact (mem_matching.mp (of_decide_eq_true this)).2.1
  | .redis _, _, _ => trivial
  | .multi _, _, _ => trivial
  | .uuid, _, _ => trivial
  | .clock, _, _ => trivial
  | .search _ _, _, _ => trivial

end NexusGate.Cache
