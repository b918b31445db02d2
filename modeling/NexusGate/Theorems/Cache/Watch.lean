import NexusGate.Theorems.Cache.Namespace

/-! # What the calls on the cache do

A monitor for every call: what a lookup has read so far, whether a store has sent its transaction, and how
far a purge has come. -/

namespace NexusGate.Cache
open Async Async.System Redis Gateway

/-- An answer that a lookup has received: a hash field, or a document of the search index. -/
inductive Seen
  | hget (key field : String) (b : Blob)
  | doc (key : String) (dist : ℚ)

/-- Where a call of the cache stands. -/
inductive Phase
  /-- A lookup, with the answers it has. -/
  | looking (seen : List Seen)
  /-- A store without an entry id, with one, and behind its transaction. -/
  | fresh
  | drawn (entryId : String)
  | sent
  /-- A purge of a tenant: before it reads the set; with the namespaces still to go through; in the middle of
      one, with the keys that were returned and not deleted yet; at its end. -/
  | asking
  | todo (namespaces : List String)
  | sweeping (ns : String) (rest : List String) (cursor left : Nat) (held : List String)
  | done
  /-- A purge of everything, or a call that is about to raise. -/
  | idle

/-- What an answer adds. -/
@[grind =] def see : (e : Op) → Except Exn e.Reply → List Seen → List Seen
  | .redis (.hget k f), .ok (.bulk b), seen => .hget k f b :: seen
  | .search _ _, .ok (some (k, dist)), seen => .doc k dist :: seen
  | _, _, seen => seen

/-- The phase after an operation and its reply. -/
@[grind =] def advance : Phase → (e : Op) → Except Exn e.Reply → Phase
  | .looking seen, e, a => .looking (see e a seen)
  | .fresh, .uuid, .ok id => .drawn id
  | .fresh, _, _ => .fresh
  | .drawn _, .multi _, _ => .sent
  | .drawn id, _, _ => .drawn id
  | .sent, _, _ => .sent
  | .asking, .redis (.smembers _), .ok (.strings namespaces) => .todo namespaces
  | .todo (ns :: rest), .scan _, .ok page => .sweeping ns rest page.cursor page.left page.keys
  | .todo [], .redis (.del _), .ok _ => .done
  | .sweeping ns rest cursor _ held, .scanNext _ _ left, .ok keys => .sweeping ns rest cursor left (held ++ keys)
  | .sweeping ns rest cursor left held, .redis (.del ks), .ok _ =>
    if ks = [zsetKey ns] then .todo rest else .sweeping ns rest cursor left (held.filter (· ∉ ks))
  | _, _, _ => .idle

/-- What every answer keeps to. -/
def Honest (embedder : String → Vec) : (e : Op) → Except Exn e.Reply → Prop
  | .embed text, .ok v => v = embedder text
  | .scan pattern, .ok page => ∀ k ∈ page.keys, pattern.toList <+: k.toList
  | .scanNext pattern _ _, .ok keys => ∀ k ∈ keys, pattern.toList <+: k.toList
  | _, _ => True

section Monitors
variable (cache : SemanticCache)

/-- The operations of a call in a phase. -/
inductive May : Call → Phase → Op → Prop
  | embed {t r seen text} : May (.lookup t r) (.looking seen) (.embed text)
  | search {t r seen v} : May (.lookup t r) (.looking seen) (.search (namespaceFor cache.sha256 t r) v)
  | read {t r seen c} (h : ∀ k ∈ c.writes, k = zsetKey (namespaceFor cache.sha256 t r)) :
    May (.lookup t r) (.looking seen) (.redis c)
  | embedNew {t r c text} : May (.store t r c) .fresh (.embed text)
  | uuid {t r c} : May (.store t r c) .fresh .uuid
  | clock {t r c id} : May (.store t r c) (.drawn id) .clock
  | land {t r c id now} : May (.store t r c) (.drawn id) (.multi
      (cache.storeCmds t (namespaceFor cache.sha256 t r) id (cache.embedder r.last.content) c now))
  | evict {t r c} (ids : List String) :
    May (.store t r c) .sent (.redis (.del (ids.map (entryKey (namespaceFor cache.sha256 t r)))))
  | members {t} : May (.purgeTenant t) .asking (.redis (.smembers (tenantKey t)))
  | scan {t ns rest} : May (.purgeTenant t) (.todo (ns :: rest)) (.scan (entryPrefix ns))
  | scanNext {t ns rest cursor left held} :
    May (.purgeTenant t) (.sweeping ns rest cursor (left + 1) held) (.scanNext (entryPrefix ns) cursor left)
  | del {t ns rest cursor left held ks} (h : ∀ k ∈ ks, (entryPrefix ns).toList <+: k.toList) :
    May (.purgeTenant t) (.sweeping ns rest cursor left held) (.redis (.del ks))
  | delZset {t ns rest cursor} : May (.purgeTenant t) (.sweeping ns rest cursor 0 []) (.redis (.del [zsetKey ns]))
  | delTenant {t} : May (.purgeTenant t) (.todo []) (.redis (.del [tenantKey t]))
  | scanAll {p} : May .purgeAll .idle (.scan p)
  | scanAllNext {p c l} : May .purgeAll .idle (.scanNext p c l)
  | delAll {ks} : May .purgeAll .idle (.redis (.del ks))

/-- Where the nearest entry of a namespace comes from, and its similarity. -/
def Nearest (ns : String) (vec : Vec) (seen : List Seen) (key : String) (q : ℚ) : Prop :=
  match cache.index with
  | .bruteForce => ∃ id v, key = entryKey ns id ∧ .hget key "vec" (.vec v) ∈ seen ∧ q = dot v vec
  | .rediSearch => ∃ dist, .doc key dist ∈ seen ∧ q = 1 - dist

/-- What a lookup has read when it ends with a hit. -/
def Shown (t : String) (r : ChatRequest) (hit : CacheHit) (seen : List Seen) : Prop :=
  ∃ key q, .hget key "payload" (.completion hit.completion) ∈ seen ∧ cache.threshold ≤ q ∧
    hit.similarity = round4 q ∧
    Nearest cache (namespaceFor cache.sha256 t r) (cache.embedder r.last.content) seen key q

/-- What a result says of the phase that the call ends in. -/
def Last : Call → Except Exn Result → Phase → Prop
  | .lookup t r, .ok (.found (some hit)), g => ∃ seen, g = .looking seen ∧ Shown cache t r hit seen
  | .purgeTenant _, .ok _, g => g = .done
  | _, _, _ => True

/-- What a call may do, as long as the stores answer honestly. -/
def monitor (c : Call) : Monitor Op Op.Reply Exn Phase where
  may := May cache c
  next g e a g' := Honest cache.embedder e a ∧ g' = advance g e a

/-- Every call of the cache is watched. -/
def watch : Watch (system cache) where
  G := Phase
  monitor := monitor cache
  first
    | .lookup _ _ => .looking []
    | .store _ _ _ => .fresh
    | .purgeTenant _ => .asking
    | .purgeAll => .idle
  last := Last cache

end Monitors

section Follow
variable {cache : SemanticCache} {c : Call} {t : String} {r : ChatRequest}

theorem call_follows {e : Op} {g : Phase} {Q : Except Exn e.Reply → Phase → Prop} (hmay : May cache c g e)
    (hQ : ∀ a, Honest cache.embedder e a → Q a (advance g e a)) : Follows (monitor cache c) Q (.call e) g :=
  Follows.call_iff.mpr ⟨hmay, fun a _ ⟨ha, hg⟩ => hg ▸ hQ a ha⟩

/-! ### Lookups -/

/-- A lookup that has read all of `seen`, and has got `a` which fits what it has read. -/
def Reads {α : Type} (seen : List Seen) (P : α → List Seen → Prop) : Except Exn α → Phase → Prop
  | .ok a, g => ∃ seen', g = .looking seen' ∧ seen ⊆ seen' ∧ P a seen'
  | .error _, g => ∃ seen', g = .looking seen' ∧ seen ⊆ seen'

theorem see_subset {e : Op} {a : Except Exn e.Reply} {seen : List Seen} : seen ⊆ see e a seen := by
  unfold see
  split
  · exact List.subset_cons_self _ _
  · exact List.subset_cons_self _ _
  · exact fun _ h => h

theorem read_follows {seen : List Seen} {cmd : Cmd Blob}
    (h : ∀ k ∈ cmd.writes, k = zsetKey (namespaceFor cache.sha256 t r)) :
    Follows (monitor cache (.lookup t r)) (Reads seen fun a seen' => ∀ k f b, cmd = .hget k f → a = .bulk b →
      Seen.hget k f b ∈ seen') (redis cmd) (.looking seen) := by
  refine call_follows (.read h) fun a _ => ?_
  cases a with
  | error x => exact ⟨_, rfl, see_subset⟩
  | ok a =>
    refine ⟨_, rfl, see_subset, ?_⟩
    rintro k f b rfl rfl
    exact List.mem_cons_self

/-- The answers to the `HGET`s of a pipeline, id by id. -/
theorem pipeline_follows (ns : String) : ∀ (ids : List String) (seen : List Seen),
    Follows (monitor cache (.lookup t r)) (Reads seen fun rs seen' => ∀ i b, (i, .bulk b) ∈ ids.zip rs →
      Seen.hget (entryKey ns i) "vec" b ∈ seen')
      (pipeline (ids.map fun i => .hget (entryKey ns i) "vec")) (.looking seen)
  | [], seen => ⟨seen, rfl, List.Subset.refl _, by simp⟩
  | i :: ids, seen => by
    refine Follows.bind_iff.mpr (Follows.attempt_iff.mpr ((read_follows (by simp [Cmd.writes])).mono ?_))
    intro a g hg
    have hseen : ∃ seen₁, g = .looking seen₁ ∧ seen ⊆ seen₁ ∧
        ∀ b, a = .ok (.bulk b) → Seen.hget (entryKey ns i) "vec" b ∈ seen₁ := by
      cases a with
      | error x =>
        obtain ⟨seen₁, hg, hsub⟩ := hg
        exact ⟨seen₁, hg, hsub, nofun⟩
      | ok a =>
        obtain ⟨seen₁, hg, hsub, ha⟩ := hg
        exact ⟨seen₁, hg, hsub, fun b hb => ha _ _ b rfl (Except.ok.inj hb)⟩
    obtain ⟨seen₁, rfl, hsub₁, ha⟩ := hseen
    refine Follows.bind_iff.mpr (Follows.attempt_iff.mpr ((pipeline_follows ns ids seen₁).mono ?_))
    intro rs g hg
    cases a with
    | error x =>
      cases rs with
      | error y =>
        obtain ⟨seen₂, rfl, hsub₂⟩ := hg
        exact ⟨seen₂, rfl, fun _ h => hsub₂ (hsub₁ h)⟩
      | ok rs =>
        obtain ⟨seen₂, rfl, hsub₂, -⟩ := hg
        exact ⟨seen₂, rfl, fun _ h => hsub₂ (hsub₁ h)⟩
    | ok a =>
      cases rs with
      | error y =>
        obtain ⟨seen₂, rfl, hsub₂⟩ := hg
        exact ⟨seen₂, rfl, fun _ h => hsub₂ (hsub₁ h)⟩
      | ok rs =>
        obtain ⟨seen₂, rfl, hsub₂, hrs⟩ := hg
        refine ⟨seen₂, rfl, fun _ h => hsub₂ (hsub₁ h), fun j b hj => ?_⟩
        rcases List.mem_cons.mp (List.zip_cons_cons ▸ hj) with heq | hj
        · cases heq
          exact hsub₂ (ha b rfl)
        · exact hrs j b hj

/-- The vectors are those of the answers, one by one. -/
theorem vectors_follows {seen : List Seen} : ∀ rs : List (Redis.Reply Blob),
    Follows (monitor cache (.lookup t r)) (Reads seen fun raw _ => ∀ (ids : List String) i v,
      (i, some v) ∈ ids.zip raw → (i, .bulk (.vec v)) ∈ ids.zip rs) (vectors rs) (.looking seen)
  | [] => ⟨seen, rfl, List.Subset.refl _, by simp⟩
  | .nil :: rs => by
    refine Follows.bind_iff.mpr ((vectors_follows rs).mono ?_)
    rintro (x | raw) g hg
    · exact hg
    · obtain ⟨seen', rfl, hsub, hraw⟩ := hg
      refine ⟨seen', rfl, hsub, fun ids i v hi => ?_⟩
      cases ids with
      | nil => simp at hi
      | cons j ids =>
        rw [List.zip_cons_cons] at hi ⊢
        rcases List.mem_cons.mp hi with heq | hi
        · cases heq
        · exact List.mem_cons_of_mem _ (hraw ids i v hi)
  | .bulk (.vec w) :: rs => by
    refine Follows.bind_iff.mpr ((vectors_follows rs).mono ?_)
    rintro (x | raw) g hg
    · exact hg
    · obtain ⟨seen', rfl, hsub, hraw⟩ := hg
      refine ⟨seen', rfl, hsub, fun ids i v hi => ?_⟩
      cases ids with
      | nil => simp at hi
      | cons j ids =>
        rw [List.zip_cons_cons] at hi ⊢
        rcases List.mem_cons.mp hi with heq | hi
        · cases heq
          exact List.mem_cons_self
        · exact List.mem_cons_of_mem _ (hraw ids i v hi)
  | .ok :: rs => ⟨seen, rfl, List.Subset.refl _⟩
  | .int _ :: rs => ⟨seen, rfl, List.Subset.refl _⟩
  | .bulk (.text _) :: rs => ⟨seen, rfl, List.Subset.refl _⟩
  | .bulk (.completion _) :: rs => ⟨seen, rfl, List.Subset.refl _⟩
  | .bulk (.num _) :: rs => ⟨seen, rfl, List.Subset.refl _⟩
  | .bulks _ :: rs => ⟨seen, rfl, List.Subset.refl _⟩
  | .strings _ :: rs => ⟨seen, rfl, List.Subset.refl _⟩
  | .error :: rs => ⟨seen, rfl, List.Subset.refl _⟩

theorem argmax_mem {α : Type} : ∀ {l : List (α × ℚ)} {x : α × ℚ}, argmax l = some x → x ∈ l
  | [], _, h => by cases h
  | y :: l, x, h => by
    simp only [argmax] at h
    cases hl : argmax l with
    | none =>
      rw [hl] at h
      cases h
      exact List.mem_cons_self
    | some z =>
      rw [hl] at h
      simp only at h
      split_ifs at h <;> cases h
      · exact List.mem_cons_of_mem _ (argmax_mem hl)
      · exact List.mem_cons_self

theorem nearest_follows {vec : Vec} :
    Follows (monitor cache (.lookup t r)) (Reads [] fun found seen => ∀ key q, found = some (key, q) →
      Nearest cache (namespaceFor cache.sha256 t r) vec seen key q)
      (cache.nearest (namespaceFor cache.sha256 t r) vec) (.looking []) := by
  unfold SemanticCache.nearest Nearest
  cases cache.index with
  | bruteForce =>
    refine Follows.bind_iff.mpr ((read_follows (by simp [Cmd.writes])).mono fun a g hg => ?_)
    cases a with
    | error x => exact hg
    | ok a =>
      obtain ⟨seen₁, rfl, -, -⟩ := hg
      simp only
      split
      · exact ⟨seen₁, rfl, List.nil_subset _, nofun⟩
      · rename_i ids _
        refine Follows.bind_iff.mpr ((pipeline_follows _ ids seen₁).mono fun rs g hg => ?_)
        cases rs with
        | error x =>
          obtain ⟨seen₂, rfl, -⟩ := hg
          exact ⟨seen₂, rfl, List.nil_subset _⟩
        | ok rs =>
          obtain ⟨seen₂, rfl, -, hrs⟩ := hg
          refine Follows.bind_iff.mpr ((vectors_follows rs).mono fun raw g hg => ?_)
          cases raw with
          | error x =>
            obtain ⟨seen₃, rfl, -⟩ := hg
            exact ⟨seen₃, rfl, List.nil_subset _⟩
          | ok raw =>
            obtain ⟨seen₃, rfl, hsub, hraw⟩ := hg
            have hfound : ∀ seen', seen₃ ⊆ seen' → ∀ key q, argmax (((ids.zip raw).filterMap fun p =>
                p.2.map fun v => (p.1, v)).map fun p => (entryKey (namespaceFor cache.sha256 t r) p.1, dot p.2 vec)) =
                some (key, q) → ∃ id v, key = entryKey (namespaceFor cache.sha256 t r) id ∧
                  Seen.hget key "vec" (.vec v) ∈ seen' ∧ q = dot v vec := by
              intro seen' hsub' key q hmax
              obtain ⟨⟨i, v⟩, hp, heq⟩ := List.mem_map.mp (argmax_mem hmax)
              obtain ⟨⟨i', o⟩, hzip, ho⟩ := List.mem_filterMap.mp hp
              cases o with
              | none => cases ho
              | some w =>
                cases ho
                cases heq
                exact ⟨i', v, rfl, hsub' (hsub (hrs i' _ (hraw ids i' v hzip))), rfl⟩
            simp only
            split
            · refine Follows.bind_iff.mpr ((read_follows (by simp [Cmd.writes])).mono fun a g hg => ?_)
              cases a with
              | error x =>
                obtain ⟨seen₄, rfl, -⟩ := hg
                exact ⟨seen₄, rfl, List.nil_subset _⟩
              | ok a =>
                obtain ⟨seen₄, rfl, hsub', -⟩ := hg
                exact ⟨seen₄, rfl, List.nil_subset _, hfound seen₄ hsub'⟩
            · exact ⟨seen₃, rfl, List.nil_subset _, hfound seen₃ (List.Subset.refl _)⟩
      · exact ⟨seen₁, rfl, List.nil_subset _⟩
  | rediSearch =>
    refine Follows.bind_iff.mpr (call_follows .search fun a _ => ?_)
    rcases a with x | _ | ⟨key, dist⟩
    · exact ⟨_, rfl, List.nil_subset _⟩
    · exact ⟨_, rfl, List.nil_subset _, nofun⟩
    · refine ⟨_, rfl, List.nil_subset _, fun key' q h => ?_⟩
      cases h
      exact ⟨dist, List.mem_cons_self, rfl⟩

theorem lookup_follows : Follows (monitor cache (.lookup t r)) (Last cache (.lookup t r))
    (.found <$> cache.lookup t r) (.looking []) := by
  refine Follows.map (Follows.bind_iff.mpr (call_follows .embed fun v hv => ?_))
  cases v with
  | error x => trivial
  | ok v =>
    obtain rfl : v = cache.embedder r.last.content := hv
    refine Follows.bind_iff.mpr (nearest_follows.mono fun found g hg => ?_)
    rcases found with x | _ | ⟨key, q⟩
    · trivial
    · trivial
    obtain ⟨seen, rfl, -, hnear⟩ := hg
    simp only
    split
    · trivial
    · rename_i hq
      refine Follows.bind_iff.mpr ((read_follows (by simp [Cmd.writes])).mono fun a g hg => ?_)
      cases a with
      | error x => trivial
      | ok a =>
        obtain ⟨seen', rfl, hsub, ha⟩ := hg
        simp only
        split
        · trivial
        · rename_i c
          refine ⟨seen', rfl, key, q, ha _ _ _ rfl rfl, not_lt.mp hq, rfl, ?_⟩
          have := hnear key q rfl
          unfold Nearest at this ⊢
          split at this
          · obtain ⟨id, v, hk, hv, hq⟩ := this
            exact ⟨id, v, hk, hsub hv, hq⟩
          · obtain ⟨dist, hd, hq⟩ := this
            exact ⟨dist, hsub hd, hq⟩
        · trivial

/-! ### Stores -/

theorem store_follows {completion : CachedCompletion} :
    Follows (monitor cache (.store t r completion)) (Last cache (.store t r completion))
      ((fun _ => .stored) <$> cache.store t r completion) .fresh := by
  refine Follows.map (Follows.bind_iff.mpr (call_follows .embedNew fun v hv => ?_))
  cases v with
  | error x => trivial
  | ok v =>
    obtain rfl : v = cache.embedder r.last.content := hv
    refine Follows.bind_iff.mpr (call_follows .uuid fun id _ => ?_)
    cases id with
    | error x => trivial
    | ok id =>
      refine Follows.bind_iff.mpr (call_follows .clock fun now _ => ?_)
      cases now with
      | error x => trivial
      | ok now =>
        refine Follows.bind_iff.mpr (call_follows .land fun results _ => ?_)
        cases results with
        | error x => trivial
        | ok results =>
          simp only
          split
          · trivial
          · rename_i ids _ _
            refine Follows.bind_iff.mpr (Follows.bind_iff.mpr (call_follows (.evict ids) fun n _ => ?_))
            rcases n with x | n
            · trivial
            · cases n <;> trivial
          · trivial

/-! ### Purges -/

/-- A purge that has come to an end of a part, or is about to raise. -/
def Comes {α : Type} (P : α → Phase → Prop) : Except Exn α → Phase → Prop
  | .ok a, g => P a g
  | .error _, _ => True

/-- What has not been deleted yet is in the batch, and all of it belongs to the namespace. -/
structure Batch (ns : String) (held batch : List String) : Prop where
  held : ∀ k ∈ held, k ∈ batch
  belongs : ∀ k ∈ batch, (entryPrefix ns).toList <+: k.toList

theorem delete_follows {g : Phase} {ks : List String} {P : Int → Phase → Prop} (hmay : May cache c g (.redis (.del ks)))
    (hP : ∀ a n, P n (advance g (.redis (.del ks)) (.ok a))) :
    Follows (monitor cache c) (Comes P) (delete ks) g := by
  refine Follows.bind_iff.mpr (call_follows hmay fun a _ => ?_)
  rcases a with x | a
  · trivial
  · cases a with
    | int n => exact hP _ n
    | _ => trivial

section Sweep
variable {ns : String} {rest : List String} {cursor left : Nat}

theorem entryPrefix_ne_zsetKey {ns ns' : String} : ¬(entryPrefix ns).toList <+: (zsetKey ns').toList := by
  simp [entryPrefix, zsetKey]

/-- A batch goes away. -/
theorem deleteBatch_follows {held batch : List String} (hb : Batch ns held batch) (hne : batch ≠ []) :
    Follows (monitor cache (.purgeTenant t)) (Comes fun _ g => g = .sweeping ns rest cursor left [])
      (delete batch) (.sweeping ns rest cursor left held) := by
  refine delete_follows (.del hb.belongs) fun a n => ?_
  have hz : batch ≠ [zsetKey ns] := by
    rintro rfl
    exact entryPrefix_ne_zsetKey (hb.belongs _ List.mem_cons_self)
  have hheld : held.filter (· ∉ batch) = [] := List.filter_eq_nil_iff.mpr fun k hk => by simp [hb.held k hk]
  simp only [advance, hz, if_false, hheld]

theorem deletePage_follows : ∀ {keys : List String} {batch held : List String} {deleted : Int},
    Batch ns held (batch ++ keys) →
    Follows (monitor cache (.purgeTenant t)) (Comes fun acc g => ∃ held', g = .sweeping ns rest cursor left held' ∧
      Batch ns held' acc.1) (deletePage keys (batch, deleted)) (.sweeping ns rest cursor left held)
  | [], batch, held, deleted, hb => ⟨held, rfl, List.append_nil batch ▸ hb⟩
  | key :: keys, batch, held, deleted, hb => by
    have hb' : Batch ns held ((batch ++ [key]) ++ keys) := by simpa using hb
    simp only [deletePage]
    split
    · -- The batch takes its keys out of those held; what is left of them is on the rest of the page.
      refine Follows.bind_iff.mpr ((delete_follows (P := fun _ g => g = advance (.sweeping ns rest cursor left held)
        (.redis (.del (batch ++ [key]))) (.ok .ok)) (.del fun k hk => hb'.belongs k (List.mem_append_left _ hk))
        fun a n => ?_).mono fun n g hg => ?_)
      · rfl
      · cases n with
        | error x => trivial
        | ok n =>
          obtain rfl := hg
          have hz : batch ++ [key] ≠ [zsetKey ns] := by
            intro h
            exact entryPrefix_ne_zsetKey (hb'.belongs (zsetKey ns) (by simp [h]))
          simp only [advance, hz, if_false]
          refine deletePage_follows ⟨fun k hk => ?_, fun k hk => hb'.belongs k (List.mem_append_right _ hk)⟩
          obtain ⟨hk, hout⟩ := List.mem_filter.mp hk
          exact (List.mem_append.mp (hb'.held k hk)).resolve_left (of_decide_eq_true hout)
    · exact deletePage_follows hb'

theorem deletePages_follows : ∀ {left : Nat} {acc : List String × Int} {held : List String}, Batch ns held acc.1 →
    Follows (monitor cache (.purgeTenant t)) (Comes fun acc g => ∃ held', g = .sweeping ns rest cursor 0 held' ∧
      Batch ns held' acc.1) (deletePages (entryPrefix ns) cursor left acc) (.sweeping ns rest cursor left held)
  | 0, acc, held, hb => ⟨held, rfl, hb⟩
  | left + 1, (batch, deleted), held, hb => by
    refine Follows.bind_iff.mpr (call_follows .scanNext fun keys hkeys => ?_)
    cases keys with
    | error x => trivial
    | ok keys =>
      have hb' : Batch ns (held ++ keys) (batch ++ keys) :=
        ⟨fun k hk => (List.mem_append.mp hk).elim (fun h => List.mem_append_left _ (hb.held k h))
            fun h => List.mem_append_right _ h,
          fun k hk => (List.mem_append.mp hk).elim (hb.belongs k) (hkeys k)⟩
      refine Follows.bind_iff.mpr ((deletePage_follows hb').mono fun acc g hg => ?_)
      cases acc with
      | error x => trivial
      | ok acc =>
        obtain ⟨held', rfl, hb''⟩ := hg
        exact deletePages_follows hb''

/-- All that a scan returned has been deleted. -/
theorem deleteMatching_follows : Follows (monitor cache (.purgeTenant t))
    (Comes fun _ g => ∃ cursor, g = .sweeping ns rest cursor 0 []) (deleteMatching (entryPrefix ns))
    (.todo (ns :: rest)) := by
  refine Follows.bind_iff.mpr (call_follows .scan fun page hpage => ?_)
  cases page with
  | error x => trivial
  | ok page =>
    have hb : Batch ns page.keys ([] ++ page.keys) := ⟨fun _ h => h, hpage⟩
    refine Follows.bind_iff.mpr ((deletePage_follows hb).mono fun acc g hg => ?_)
    cases acc with
    | error x => trivial
    | ok acc =>
      obtain ⟨held, rfl, hb⟩ := hg
      refine Follows.bind_iff.mpr ((deletePages_follows hb).mono fun acc g hg => ?_)
      cases acc with
      | error x => trivial
      | ok acc =>
        obtain ⟨held', rfl, hb'⟩ := hg
        simp only
        split
        · rename_i hnil
          rw [hnil] at hb'
          exact ⟨_, congrArg _ (List.eq_nil_iff_forall_not_mem.mpr fun k hk => List.not_mem_nil (hb'.held k hk))⟩
        · rename_i hne
          refine Follows.bind_iff.mpr ((deleteBatch_follows hb' hne).mono fun n g hg => ?_)
          cases n with
          | error x => trivial
          | ok n => exact ⟨_, hg⟩

end Sweep

theorem purgeNamespaces_follows : ∀ {namespaces : List String} {deleted : Int},
    Follows (monitor cache (.purgeTenant t)) (Comes fun _ g => g = .todo [])
      (SemanticCache.purgeNamespaces namespaces deleted) (.todo namespaces)
  | [], _ => rfl
  | ns :: rest, deleted => by
    refine Follows.bind_iff.mpr (deleteMatching_follows.mono fun n g hg => ?_)
    cases n with
    | error x => trivial
    | ok n =>
      obtain ⟨cursor, rfl⟩ := hg
      refine Follows.bind_iff.mpr ((delete_follows (P := fun _ g => g = .todo rest) .delZset fun a n => ?_).mono
        fun n g hg => ?_)
      · simp [advance]
      · cases n with
        | error x => trivial
        | ok n =>
          obtain rfl := hg
          exact purgeNamespaces_follows

theorem purgeTenant_follows : Follows (monitor cache (.purgeTenant t)) (Last cache (.purgeTenant t))
    (.deleted <$> cache.purgeTenant t) .asking := by
  refine Follows.map (Follows.bind_iff.mpr (call_follows .members fun a _ => ?_))
  rcases a with x | a
  · trivial
  · cases a with
    | strings namespaces =>
      refine Follows.bind_iff.mpr (purgeNamespaces_follows.mono fun n g hg => ?_)
      cases n with
      | error x => trivial
      | ok n =>
        obtain rfl := hg
        refine Follows.bind_iff.mpr ((delete_follows (P := fun _ g => g = .done) .delTenant fun a n => rfl).mono
          fun n g hg => ?_)
        cases n with
        | error x => trivial
        | ok n => exact hg
    | _ => trivial

section All

/-- Deleting everything takes nothing but scans and deletions. -/
theorem delete_idle {ks : List String} : Follows (monitor cache .purgeAll) (fun _ g => g = .idle) (delete ks) .idle := by
  refine Follows.bind_iff.mpr (call_follows .delAll fun a _ => ?_)
  rcases a with x | a
  · rfl
  · cases a <;> rfl

theorem deletePage_idle : ∀ {keys : List String} {acc : List String × Int},
    Follows (monitor cache .purgeAll) (fun _ g => g = .idle) (deletePage keys acc) .idle
  | [], _ => rfl
  | key :: keys, (batch, deleted) => by
    simp only [deletePage]
    split
    · refine delete_idle.bind (fun n g hg => ?_) fun _ _ hg => hg
      obtain rfl := hg
      exact deletePage_idle
    · exact deletePage_idle

theorem deletePages_idle {pattern : String} {cursor : Nat} : ∀ {left : Nat} {acc : List String × Int},
    Follows (monitor cache .purgeAll) (fun _ g => g = .idle) (deletePages pattern cursor left acc) .idle
  | 0, _ => rfl
  | left + 1, acc => by
    refine Follows.bind_iff.mpr (call_follows .scanAllNext fun keys _ => ?_)
    cases keys with
    | error x => rfl
    | ok keys =>
      refine deletePage_idle.bind (fun acc g hg => ?_) fun _ _ hg => hg
      obtain rfl := hg
      exact deletePages_idle

theorem deleteMatching_idle {pattern : String} :
    Follows (monitor cache .purgeAll) (fun _ g => g = .idle) (deleteMatching pattern) .idle := by
  refine Follows.bind_iff.mpr (call_follows .scanAll fun page _ => ?_)
  cases page with
  | error x => rfl
  | ok page =>
    refine deletePage_idle.bind (fun acc g hg => ?_) fun _ _ hg => hg
    obtain rfl := hg
    refine deletePages_idle.bind (fun acc g hg => ?_) fun _ _ hg => hg
    obtain rfl := hg
    simp only
    split
    · rfl
    · exact delete_idle.bind (fun n g hg => hg) fun _ _ hg => hg

theorem purgeAll_follows : Follows (monitor cache .purgeAll) (Last cache .purgeAll)
    (.deleted <$> cache.purgeAll) .idle := by
  refine Follows.map (deleteMatching_idle.bind (fun n g hg => ?_) fun _ _ _ => trivial)
  obtain rfl := hg
  refine deleteMatching_idle.bind (fun _ g hg => ?_) fun _ _ _ => trivial
  obtain rfl := hg
  exact deleteMatching_idle.bind (fun _ _ _ => trivial) fun _ _ _ => trivial

end All

theorem watch_sound : (watch cache).Sound := by
  rintro (⟨t, r⟩ | ⟨t, r, completion⟩ | t | _)
  · exact lookup_follows
  · exact store_follows
  · exact purgeTenant_follows
  · exact purgeAll_follows

end Follow
end NexusGate.Cache
