import NexusGate.Theorems.Cache.Steps

/-! # Whose answer a hit is

Every entry belongs to the store call that drew its id. An entry never becomes another's, so what a lookup
reads under its namespace was stored for that namespace. -/

namespace NexusGate.Cache
open Async Async.System Redis Gateway

/-- What a store call stores, and for whom. -/
structure Stored where
  tenant : String
  request : ChatRequest
  completion : CachedCompletion

/-- The store call that drew an id. -/
abbrev Owner := String → Option Stored

/-- The key is that of an entry. -/
def IsEntry (k : String) : Prop := "semcache:e:".toList <+: k.toList

section Defs
variable (cache : SemanticCache)

/-- What has happened in a run. -/
abbrev Trace := List (system cache).Event

/-- The namespace that an answer was stored under. -/
def Stored.ns (x : Stored) : String := namespaceFor cache.sha256 x.tenant x.request

/-- The transaction of the store has been sent. -/
def Stored.LandedIn (x : Stored) (tr : Trace cache) : Prop :=
  ∃ i cs a, .did i (.store x.tenant x.request x.completion) (.multi cs) a ∈ tr

/-- The fields of an entry. -/
structure Stored.Fields (x : Stored) (h : AList fun _ : String => Blob) : Prop where
  ns : h.lookup "ns" = some (.text (x.ns cache))
  vec : h.lookup "vec" = some (.vec (cache.embedder x.request.last.content))
  payload : h.lookup "payload" = some (.completion x.completion)

/-- The entry `k` belongs to the store call that drew its id. -/
def EntryOk (owner : Owner) (tr : Trace cache) (k : String) (e : Entry Blob) : Prop :=
  ∃ id x h, owner id = some x ∧ k = entryKey (x.ns cache) id ∧ x.LandedIn cache tr ∧ e.value = .hash h ∧
    x.Fields cache h

/-- What a lookup has read under its own namespace. -/
def SeenOk (owner : Owner) (tr : Trace cache) (t : String) (r : ChatRequest) : Seen → Prop
  | .hget k f b => ∀ id, k = entryKey (namespaceFor cache.sha256 t r) id → ∃ x, owner id = some x ∧
      x.ns cache = namespaceFor cache.sha256 t r ∧ x.LandedIn cache tr ∧
      (f = "payload" → b = .completion x.completion) ∧
      (f = "vec" → b = .vec (cache.embedder x.request.last.content))
  | .doc k dist => (∃ id, k = entryKey (namespaceFor cache.sha256 t r) id) ∧
      ∃ i v, .did i (.lookup t r) (.search (namespaceFor cache.sha256 t r) v) (.ok (some (k, dist))) ∈ tr

/-- The hashed string of a call is one of `M`. -/
def Call.Hashes (M : Set String) : Call → Prop
  | .lookup t r | .store t r _ => material t r ∈ M
  | _ => True

/-- What every run keeps. -/
structure Inv (M : Set String) (owner : Owner) (s : State) (tr : Trace cache) (Γ : Nat → Option (Call × Phase)) :
    Prop where
  entries : ∀ k e, IsEntry k → s.store.lookup k = some e → EntryOk cache owner tr k e
  owned : ∀ id x, owner id = some x → id ∈ s.drawn ∧ material x.tenant x.request ∈ M
  holder : ∀ i t r c id, Γ i = some (.store t r c, .drawn id) → owner id = some ⟨t, r, c⟩
  seen : ∀ i t r seen, Γ i = some (.lookup t r, .looking seen) → ∀ x ∈ seen, SeenOk cache owner tr t r x
  hashes : ∀ i c g, Γ i = some (c, g) → c.Hashes M

end Defs

section Keep
variable {cache : SemanticCache} {M : Set String} {owner owner' : Owner} {s s' : State} {tr : Trace cache}
  {Γ : Nat → Option (Call × Phase)} {v : (system cache).Event} {i : Nat}

theorem isEntry_entryKey {ns id : String} : IsEntry (entryKey ns id) := by
  simp [IsEntry, entryKey, entryPrefix]

theorem not_isEntry_zsetKey {ns : String} : ¬IsEntry (zsetKey ns) := by
  simp [IsEntry, zsetKey]

theorem not_isEntry_tenantKey {t : String} : ¬IsEntry (tenantKey t) := by
  simp [IsEntry, tenantKey]

theorem Stored.LandedIn.cons {x : Stored} (h : x.LandedIn cache tr) : x.LandedIn cache (v :: tr) := by
  obtain ⟨i, cs, a, hm⟩ := h
  exact ⟨i, cs, a, List.mem_cons_of_mem _ hm⟩

theorem EntryOk.grow {k : String} {e : Entry Blob} (h : EntryOk cache owner tr k e)
    (hown : ∀ id x, owner id = some x → owner' id = some x) : EntryOk cache owner' (v :: tr) k e := by
  obtain ⟨id, x, f, ho, hk, hl, he⟩ := h
  exact ⟨id, x, f, hown id x ho, hk, hl.cons, he⟩

theorem SeenOk.grow {t : String} {r : ChatRequest} {x : Seen} (h : SeenOk cache owner tr t r x)
    (hown : ∀ id x, owner id = some x → owner' id = some x) : SeenOk cache owner' (v :: tr) t r x := by
  cases x with
  | hget k f b =>
    intro id hk
    obtain ⟨x, ho, hns, hl, hf⟩ := h id hk
    exact ⟨x, hown id x ho, hns, hl.cons, hf⟩
  | doc k dist =>
    obtain ⟨hk, j, w, hm⟩ := h
    exact ⟨hk, j, w, List.mem_cons_of_mem _ hm⟩

/-- What has to be shown for the call that makes a step. -/
structure Kept (cache : SemanticCache) (M : Set String) (owner : Owner) (tr : Trace cache) (c : Call) (g : Phase) :
    Prop where
  hashes : c.Hashes M
  holder : ∀ t r d id, c = .store t r d → g = .drawn id → owner id = some ⟨t, r, d⟩
  seen : ∀ t r seen, c = .lookup t r → g = .looking seen → ∀ x ∈ seen, SeenOk cache owner tr t r x

/-- One event: owners may be added, entries of their owners may appear, and one call goes on. -/
theorem Inv.grow (h : Inv cache M owner s tr Γ) (hown : ∀ id x, owner id = some x → owner' id = some x)
    (hentries : ∀ k e, IsEntry k → s'.store.lookup k = some e →
      s.store.lookup k = some e ∨ EntryOk cache owner' (v :: tr) k e)
    (howned : ∀ id x, owner' id = some x → id ∈ s'.drawn ∧ material x.tenant x.request ∈ M)
    {x : Option (Call × Phase)} (hx : ∀ c g, x = some (c, g) → Kept cache M owner' (v :: tr) c g) :
    Inv cache M owner' s' (v :: tr) (Function.update Γ i x) := by
  have old : ∀ {j c g}, Function.update Γ i x j = some (c, g) → (j = i ∧ x = some (c, g)) ∨ Γ j = some (c, g) := by
    intro j c g hj
    by_cases hji : j = i
    · subst hji
      exact Or.inl ⟨rfl, by rwa [Function.update_self] at hj⟩
    · exact Or.inr (by rwa [Function.update_of_ne hji] at hj)
  refine ⟨fun k e hk he => ?_, howned, fun j t r c id hj => ?_, fun j t r seen hj y hy => ?_, fun j c g hj => ?_⟩
  · rcases hentries k e hk he with he | he
    · exact (h.entries k e hk he).grow hown
    · exact he
  · rcases old hj with ⟨-, hx'⟩ | hj
    · exact (hx _ _ hx').holder t r c id rfl rfl
    · exact hown _ _ (h.holder j t r c id hj)
  · rcases old hj with ⟨-, hx'⟩ | hj
    · exact (hx _ _ hx').seen t r seen rfl rfl y hy
    · exact (h.seen j t r seen hj y hy).grow hown
  · rcases old hj with ⟨-, hx'⟩ | hj
    · exact (hx _ _ hx').hashes
    · exact h.hashes j c g hj

/-- Nothing new is drawn, and no entry is new. -/
structure Shrinks (s s' : State) : Prop where
  drawn : s'.drawn = s.drawn
  entries : ∀ k e, IsEntry k → s'.store.lookup k = some e → s.store.lookup k = some e

theorem Shrinks.refl (s : State) : Shrinks s s := ⟨rfl, fun _ _ _ h => h⟩

theorem Inv.shrink (h : Inv cache M owner s tr Γ) (hs : Shrinks s s') {x : Option (Call × Phase)}
    (hx : ∀ c g, x = some (c, g) → Kept cache M owner (v :: tr) c g) :
    Inv cache M owner s' (v :: tr) (Function.update Γ i x) :=
  h.grow (fun _ _ ho => ho) (fun k e hk he => Or.inl (hs.entries k e hk he)) (fun id x ho => hs.drawn ▸ h.owned id x ho) hx

theorem shrinks_redis {embedder : String → Vec} {ch : Choice} {c : Cmd Blob} {a : Except Exn (Op.Reply (.redis c))}
    (hex : exec embedder (.redis c) ch s = some (a, s'))
    (hc : ∀ k e, IsEntry k → (Redis.exec s.now c s.store).2.lookup k = some e → s.store.lookup k = some e) :
    Shrinks s s' := by
  rcases exec_redis hex with ⟨rfl, -⟩ | ⟨rfl, -⟩
  · exact .refl _
  · exact ⟨rfl, hc⟩

theorem shrinks_del {embedder : String → Vec} {ch : Choice} {ks : List String}
    {a : Except Exn (Op.Reply (.redis (.del ks)))} (hex : exec embedder (.redis (.del ks)) ch s = some (a, s')) :
    Shrinks s s' :=
  shrinks_redis hex fun _ _ _ he => (lookup_of_eraseAll he).2

theorem shrinks_frame {embedder : String → Vec} {ch : Choice} {c : Cmd Blob} {a : Except Exn (Op.Reply (.redis c))}
    (hex : exec embedder (.redis c) ch s = some (a, s')) (hc : ∀ k ∈ c.writes, ¬IsEntry k) : Shrinks s s' :=
  shrinks_redis hex fun k _ hk he => (exec_frame fun hw => hc k hw hk).symm.trans he

theorem shrinks_scan {embedder : String → Vec} {ch : Choice} {p : String} {a : Except Exn (Op.Reply (.scan p))}
    (hex : exec embedder (.scan p) ch s = some (a, s')) : Shrinks s s' := by
  rcases exec_scan hex with ⟨rfl, -⟩ | ⟨left, keys, -, -, rfl⟩
  · exact .refl _
  · exact ⟨rfl, fun _ _ _ h => h⟩

theorem shrinks_scanNext {embedder : String → Vec} {ch : Choice} {p : String} {cursor left : Nat}
    {a : Except Exn (Op.Reply (.scanNext p cursor left))}
    (hex : exec embedder (.scanNext p cursor left) ch s = some (a, s')) : Shrinks s s' := by
  rcases exec_scanNext hex with ⟨rfl, -⟩ | ⟨keys, -, -, rfl⟩
  · exact .refl _
  · exact ⟨rfl, fun _ _ _ h => h⟩

theorem Kept.purgeTenant {t : String} {g : Phase} : Kept cache M owner tr (.purgeTenant t) g where
  hashes := trivial
  holder _ _ _ _ hc := by cases hc
  seen _ _ _ hc := by cases hc

theorem Kept.purgeAll {g : Phase} : Kept cache M owner tr .purgeAll g where
  hashes := trivial
  holder _ _ _ _ hc := by cases hc
  seen _ _ _ hc := by cases hc

/-- A store that holds no id, or none that matters any more. -/
theorem Kept.store {t : String} {r : ChatRequest} {d : CachedCompletion} {g : Phase} (h : material t r ∈ M)
    (hg : g = .fresh ∨ g = .sent) : Kept cache M owner tr (.store t r d) g := by
  refine ⟨h, fun _ _ _ _ _ hd => ?_, fun _ _ _ hc => by cases hc⟩
  rcases hg with rfl | rfl <;> cases hd

/-! ### A store's transaction -/

/-- The keys that a transaction writes. -/
theorem storeCmds_writes {t ns id : String} {vec : Vec} {d : CachedCompletion} {now : ℚ} {c : Cmd Blob} {k : String}
    (hc : c ∈ cache.storeCmds t ns id vec d now) (hk : k ∈ c.writes) :
    k = entryKey ns id ∨ k = zsetKey ns ∨ k = tenantKey t := by
  simp only [SemanticCache.storeCmds, List.mem_cons, List.not_mem_nil, or_false] at hc
  rcases hc with rfl | rfl | rfl | rfl | rfl | rfl | rfl | rfl | rfl <;> simp_all [Cmd.writes]

/-- The entry that a transaction leaves, where nothing or a hash was. -/
theorem storeCmds_entry {t ns id : String} {vec : Vec} {d : CachedCompletion} {now : ℚ} {e : Entry Blob}
    (hold : ∀ v, value? s.now s.store (entryKey ns id) = some v → ∃ h, v = .hash h)
    (he : (execAll s.now (cache.storeCmds t ns id vec d now) s.store).2.lookup (entryKey ns id) = some e) :
    ∃ h, e = ⟨.hash h, some (deadline s.now cache.ttl)⟩ ∧ h.lookup "ns" = some (.text ns) ∧
      h.lookup "vec" = some (.vec vec) ∧ h.lookup "payload" = some (.completion d) := by
  have hz : entryKey ns id ≠ zsetKey ns := fun heq => not_isEntry_zsetKey (heq ▸ isEntry_entryKey)
  have ht : entryKey ns id ≠ tenantKey t := fun heq => not_isEntry_tenantKey (heq ▸ isEntry_entryKey)
  rw [SemanticCache.storeCmds, execAll_cons_snd, execAll_cons_frame] at he
  · obtain ⟨h₀, hh₀⟩ : ∃ h₀, (value? s.now s.store (entryKey ns id) = none ∧ h₀ = ∅) ∨
        value? s.now s.store (entryKey ns id) = some (.hash h₀) := by
      cases hval : value? s.now s.store (entryKey ns id) with
      | none => exact ⟨∅, Or.inl ⟨rfl, rfl⟩⟩
      | some v =>
        obtain ⟨h, rfl⟩ := hold v hval
        exact ⟨h, Or.inr rfl⟩
    have hlive : ∀ v : Value Blob,
        Entry.live s.now ⟨v, (live? s.now s.store (entryKey ns id)).bind Entry.expiresAt⟩ = true := by
      intro v
      cases hl : live? s.now s.store (entryKey ns id) with
      | none => rfl
      | some e₀ => exact (live?_eq_some.mp hl).2
    rw [exec_hset_hash (by simp) hh₀, exec_expire_live (live?_insert (hlive _)), AList.lookup_insert] at he
    cases he
    refine ⟨_, rfl, ?_, ?_, ?_⟩ <;> simp [AList.lookup_insert_ne]
  · intro c hc
    simp only [List.mem_cons, List.not_mem_nil, or_false] at hc
    rcases hc with rfl | rfl | rfl | rfl | rfl | rfl | rfl <;> simp [Cmd.writes, hz, ht]

/-- The transaction of a store that owns its id. -/
theorem Inv.land (h : Inv cache M owner s tr Γ) {t : String} {r : ChatRequest} {d : CachedCompletion} {id : String}
    {now : ℚ} {ch : Choice} {a : Except Exn (List (Redis.Reply Blob))} (hi : Γ i = some (.store t r d, .drawn id))
    (hex : exec cache.embedder (.multi (cache.storeCmds t (namespaceFor cache.sha256 t r) id
      (cache.embedder r.last.content) d now)) ch s = some (a, s')) :
    Inv cache M owner s' (.did i (.store t r d) (.multi (cache.storeCmds t (namespaceFor cache.sha256 t r) id
      (cache.embedder r.last.content) d now)) a :: tr) (Function.update Γ i (some (.store t r d, .sent))) := by
  have hhash := h.hashes i _ _ hi
  have hx : ∀ v c g, some (Call.store t r d, Phase.sent) = some (c, g) → Kept cache M owner (v :: tr) c g := by
    rintro v c g heq
    cases heq
    exact .store hhash (Or.inr rfl)
  rcases exec_multi hex with rfl | hs
  · exact h.shrink (.refl _) (hx _)
  · have hdrawn : s'.drawn = s.drawn := by rw [hs, State.settle_drawn]
    have hstore : s'.store = (execAll s.now (cache.storeCmds t (namespaceFor cache.sha256 t r) id
        (cache.embedder r.last.content) d now) s.store).2 := by rw [hs, State.settle_store]
    refine h.grow (fun _ _ ho => ho) (fun k e hk he => ?_) (fun id x ho => hdrawn ▸ h.owned id x ho) (hx _)
    rw [hstore] at he
    by_cases hkey : k = entryKey (namespaceFor cache.sha256 t r) id
    · subst hkey
      have hold : ∀ v, value? s.now s.store (entryKey (namespaceFor cache.sha256 t r) id) = some v → ∃ f, v = .hash f := by
        intro v hv
        obtain ⟨e₀, he₀, rfl⟩ := lookup_of_value? hv
        obtain ⟨_, _, f, -, -, -, hf, -⟩ := h.entries _ _ hk he₀
        exact ⟨f, hf⟩
      obtain ⟨f, rfl, hns, hvec, hpay⟩ := storeCmds_entry hold he
      exact Or.inr ⟨id, ⟨t, r, d⟩, f, h.holder i t r d id hi, rfl, ⟨i, _, a, List.mem_cons_self⟩, rfl, hns, hvec, hpay⟩
    · refine Or.inl ((execAll_frame fun c hc hw => ?_).symm.trans he)
      rcases storeCmds_writes hc hw with rfl | rfl | rfl
      · exact hkey rfl
      · exact not_isEntry_zsetKey hk
      · exact not_isEntry_tenantKey hk

/-! ### A lookup's answers -/

theorem mem_see_redis {c : Cmd Blob} {a : Except Exn (Op.Reply (.redis c))} {seen : List Seen} {x : Seen}
    (hx : x ∈ see (.redis c) a seen) : x ∈ seen ∨ ∃ k f b, c = .hget k f ∧ a = .ok (.bulk b) ∧ x = .hget k f b := by
  cases c with
  | hget k f =>
    rcases a with y | a
    · exact Or.inl hx
    · cases a with
      | bulk b =>
        rcases List.mem_cons.mp hx with rfl | hx
        · exact Or.inr ⟨k, f, b, rfl, rfl, rfl⟩
        · exact Or.inl hx
      | _ => exact Or.inl hx
  | _ => exact Or.inl hx

theorem EntryOk.stored {ns id : String} {e : Entry Blob} (h : EntryOk cache owner tr (entryKey ns id) e)
    (hns : ':' ∉ ns.toList) : ∃ x f, owner id = some x ∧ x.ns cache = ns ∧ x.LandedIn cache tr ∧ e.value = .hash f ∧
      x.Fields cache f := by
  obtain ⟨id', x, f, ho, hk, hl, he, hf⟩ := h
  obtain ⟨rfl, rfl⟩ := entryKey_inj hns namespaceFor_no_colon hk
  exact ⟨x, f, ho, rfl, hl, he, hf⟩

/-- A hash field read under the lookup's own namespace. -/
theorem Inv.hget (h : Inv cache M owner s tr Γ) {t : String} {r : ChatRequest} {k f : String} {b : Blob}
    (hb : (Redis.exec s.now (.hget k f) s.store).1 = .bulk b) : SeenOk cache owner (v :: tr) t r (.hget k f b) := by
  rintro id rfl
  obtain ⟨fields, hval, hf⟩ := exec_hget_bulk hb
  obtain ⟨e, he, hv⟩ := lookup_of_value? hval
  obtain ⟨x, g, ho, hns, hl, hg, hfields⟩ := (h.entries _ e isEntry_entryKey he).stored namespaceFor_no_colon
  rw [hg] at hv
  cases hv
  refine ⟨x, ho, hns, hl.cons, ?_, ?_⟩
  · rintro rfl
    exact Option.some.inj (hf.symm.trans hfields.payload)
  · rintro rfl
    exact Option.some.inj (hf.symm.trans hfields.vec)

/-- A document that the search index answered with. -/
theorem Inv.doc (h : Inv cache M owner s tr Γ) {ns k : String} (hk : s.tagged ns k = true) :
    ∃ id, k = entryKey ns id := by
  simp only [State.tagged, Bool.and_eq_true, List.isPrefixOf_iff_prefix] at hk
  obtain ⟨hp, hns⟩ := hk
  split at hns
  · rename_i fields x he
    obtain ⟨id, y, f, -, rfl, -, hv, hf⟩ := h.entries k _ hp he
    cases hv
    rw [hf.ns, beq_iff_eq] at hns
    cases hns
    exact ⟨id, rfl⟩
  · cases hns

/-- One operation of a running call. -/
theorem Inv.step (h : Inv cache M owner s tr Γ) {ch : Choice} {c : Call} {g : Phase} {e : Op} {a : Except Exn e.Reply}
    (hi : Γ i = some (c, g)) (hmay : May cache c g e) (hex : exec cache.embedder e ch s = some (a, s')) :
    ∃ owner', Inv cache M owner' s' (.did i c e a :: tr) (Function.update Γ i (some (c, advance g e a))) := by
  have hc := h.hashes i c g hi
  -- Every operation but the drawing of an id keeps the owners.
  have keep : Shrinks s s' → Kept cache M owner (.did i c e a :: tr) c (advance g e a) →
      ∃ owner, Inv cache M owner s' (.did i c e a :: tr) (Function.update Γ i (some (c, advance g e a))) :=
    fun hs hk => ⟨owner, h.shrink hs fun c' g' heq => by
      cases heq
      exact hk⟩
  have look : ∀ {t r seen}, c = .lookup t r → g = .looking seen →
      (∀ x ∈ see e a seen, x ∈ seen ∨ SeenOk cache owner (.did i c e a :: tr) t r x) →
      Kept cache M owner (.did i c e a :: tr) c (advance g e a) := by
    rintro t r seen rfl rfl hseen
    refine ⟨hc, fun _ _ _ _ hcall => (nomatch hcall), fun t' r' seen' hcall hg x hx => ?_⟩
    cases hcall
    cases hg
    rcases hseen x hx with hx | hx
    · exact (h.seen i t r seen hi x hx).grow fun _ _ ho => ho
    · exact hx
  cases hmay with
  | embed => exact keep ((exec_embed hex).1 ▸ .refl _) (look rfl rfl fun x hx => Or.inl hx)
  | search =>
    obtain ⟨rfl, htag⟩ := exec_search hex
    refine keep (.refl _) (look rfl rfl fun x hx => ?_)
    rcases a with y | _ | ⟨k, dist⟩
    · exact Or.inl hx
    · exact Or.inl hx
    · rcases List.mem_cons.mp hx with rfl | hx
      · exact Or.inr ⟨h.doc (htag k dist rfl), i, _, List.mem_cons_self⟩
      · exact Or.inl hx
  | @read t r seen cmd hw =>
    refine keep (shrinks_frame hex fun k hk => hw k hk ▸ not_isEntry_zsetKey) (look rfl rfl fun x hx => ?_)
    rcases mem_see_redis hx with hx | ⟨k, f, b, rfl, rfl, rfl⟩
    · exact Or.inl hx
    · rcases exec_redis hex with ⟨-, y, hy⟩ | ⟨-, hr⟩
      · cases hy
      · exact Or.inr (h.hget (hr _ rfl).symm)
  | embedNew => exact keep ((exec_embed hex).1 ▸ .refl _) (.store hc (Or.inl rfl))
  | @uuid t r d =>
    obtain ⟨id, rfl, hid, rfl⟩ := exec_uuid hex
    have hfree : owner id = none := by
      cases ho : owner id with
      | none => rfl
      | some x => exact absurd (h.owned id x ho).1 hid
    have hown : ∀ id' x, owner id' = some x → Function.update owner id (some ⟨t, r, d⟩) id' = some x := by
      intro id' x ho
      rw [Function.update_of_ne, ho]
      rintro rfl
      rw [hfree] at ho
      cases ho
    refine ⟨_, h.grow hown ?_ (fun id' x ho => ?_) fun c' g' heq => ?_⟩
    · exact fun _ _ _ he => Or.inl he
    · by_cases hii : id' = id
      · subst hii
        rw [Function.update_self] at ho
        cases ho
        exact ⟨List.mem_cons_self, hc⟩
      · rw [Function.update_of_ne hii] at ho
        exact ⟨List.mem_cons_of_mem _ (h.owned id' x ho).1, (h.owned id' x ho).2⟩
    · cases heq
      refine ⟨hc, fun t' r' d' id' hcall hg => ?_, fun _ _ _ hcall => nomatch hcall⟩
      cases hcall
      cases hg
      exact Function.update_self ..
  | clock =>
    obtain rfl := exec_clock hex
    refine keep (.refl _) ⟨hc, fun t' r' d' id' hcall hg => ?_, fun _ _ _ hcall => nomatch hcall⟩
    cases hcall
    cases hg
    exact h.holder i _ _ _ _ hi
  | land => exact ⟨owner, h.land hi hex⟩
  | evict => exact keep (shrinks_del hex) (.store hc (Or.inr rfl))
  | members => exact keep (shrinks_frame hex (by simp [Cmd.writes])) .purgeTenant
  | scan => exact keep (shrinks_scan hex) .purgeTenant
  | scanNext => exact keep (shrinks_scanNext hex) .purgeTenant
  | del | delZset | delTenant => exact keep (shrinks_del hex) .purgeTenant
  | scanAll => exact keep (shrinks_scan hex) .purgeAll
  | scanAllNext => exact keep (shrinks_scanNext hex) .purgeAll
  | delAll => exact keep (shrinks_del hex) .purgeAll

end Keep

/-! ### Every run -/

section Run
variable {cache : SemanticCache} {M : Set String}

/-- Only requests whose hashed strings are in `M` are made. -/
def Asks (M : Set String) (_ : Pool cache) : (system cache).Act → Prop
  | .start _ c => c.Hashes M
  | _ => True

/-- The similarity `q` of a hit is the one that the index measured. -/
def Measured (cache : SemanticCache) (tr : Trace cache) (t : String) (r r' : ChatRequest) (q : ℚ) : Prop :=
  match cache.index with
  | .bruteForce => q = dot (cache.embedder r'.last.content) (cache.embedder r.last.content)
  | .rediSearch => ∃ i v key dist,
    .did i (.lookup t r) (.search (namespaceFor cache.sha256 t r) v) (.ok (some (key, dist))) ∈ tr ∧ q = 1 - dist

/-- The hit is an answer that was stored by the same tenant, in the same context, and near enough. -/
def OwnAnswer (cache : SemanticCache) (tr : Trace cache) (t : String) (r : ChatRequest) (hit : CacheHit) : Prop :=
  ∃ x : Stored, x.LandedIn cache tr ∧ SameContext t r x.tenant x.request ∧ hit.completion = x.completion ∧
    ∃ q, cache.threshold ≤ q ∧ hit.similarity = round4 q ∧ Measured cache tr t r x.request q

/-- The hit of a lookup that has just ended. -/
def HitOk (cache : SemanticCache) (tr : Trace cache) : Prop :=
  ∀ i t r hit tr', tr = .ended i (.lookup t r) (.ok (.found (some hit))) :: tr' → OwnAnswer cache tr' t r hit

theorem Inv.shown {owner : Owner} {s : State} {tr : Trace cache} {Γ : Nat → Option (Call × Phase)}
    (hM : Set.InjOn cache.sha256.short M) (h : Inv cache M owner s tr Γ) {i : Nat} {t : String} {r : ChatRequest}
    {hit : CacheHit} {seen : List Seen} (hi : Γ i = some (.lookup t r, .looking seen))
    (hs : Shown cache t r hit seen) : OwnAnswer cache tr t r hit := by
  have hseen := h.seen i t r seen hi
  have hr : material t r ∈ M := h.hashes i _ _ hi
  have same : ∀ {id x}, owner id = some x → x.ns cache = namespaceFor cache.sha256 t r →
      SameContext t r x.tenant x.request := fun ho hns =>
    material_eq_iff.mp (hM hr (h.owned _ _ ho).2 hns.symm)
  obtain ⟨key, q, hpay, hq, hsim, hnear⟩ := hs
  unfold Nearest at hnear
  cases hidx : cache.index with
  | bruteForce =>
    rw [hidx] at hnear
    obtain ⟨id, w, rfl, hvec, rfl⟩ := hnear
    obtain ⟨x, ho, hns, hl, hp, -⟩ := hseen _ hpay id rfl
    obtain ⟨y, ho', -, -, -, hv⟩ := hseen _ hvec id rfl
    rw [ho] at ho'
    cases ho'
    refine ⟨x, hl, same ho hns, (Blob.completion.inj (hp rfl)), _, hq, hsim, ?_⟩
    unfold Measured
    rw [hidx, Blob.vec.inj (hv rfl)]
  | rediSearch =>
    rw [hidx] at hnear
    obtain ⟨dist, hd, rfl⟩ := hnear
    obtain ⟨⟨id, rfl⟩, j, w, hm⟩ := hseen _ hd
    obtain ⟨x, ho, hns, hl, hp, -⟩ := hseen _ hpay id rfl
    refine ⟨x, hl, same ho hns, (Blob.completion.inj (hp rfl)), _, hq, hsim, ?_⟩
    unfold Measured
    rw [hidx]
    exact ⟨j, w, _, dist, hm, rfl⟩

/-- No run stores an entry for anyone but the tenant and the request it was stored for. -/
theorem isolationRules (hM : Set.InjOn cache.sha256.short M) : Rules (watch cache) (Asks M)
    (fun s tr Γ => (∃ owner, Inv cache M owner s tr Γ) ∧ HitOk cache tr) where
  start {w Γ i c} _ h _ _ hP := by
    obtain ⟨⟨owner, h⟩, -⟩ := h
    refine ⟨⟨owner, h.shrink (.refl _) fun c' g' heq => ?_⟩, fun _ _ _ _ _ heq => by cases heq⟩
    cases heq
    refine ⟨hP, ?_, ?_⟩
    · rintro t r d id rfl hg
      cases hg
    · rintro t r seen rfl hg
      cases hg
      exact List.forall_mem_nil _
  op _ h hi _ hmay hex _ :=
    ⟨_, ⟨exec_honest hex, rfl⟩, h.1.elim fun _ h => h.step hi hmay hex, fun _ _ _ _ _ heq => by cases heq⟩
  ended {s tr Γ i c g r} h hi hl := by
    obtain ⟨⟨owner, h⟩, -⟩ := h
    refine ⟨⟨owner, h.shrink (.refl _) fun _ _ heq => by cases heq⟩, ?_⟩
    rintro j t r' hit tr' heq
    cases heq
    obtain ⟨seen, rfl, hs⟩ := hl
    exact h.shown hM hi hs
  kill _ h _ _ _ := by
    obtain ⟨⟨owner, h⟩, -⟩ := h
    exact ⟨⟨owner, h.shrink (.refl _) fun _ _ heq => by cases heq⟩, fun _ _ _ _ _ heq => by cases heq⟩
  env {w Γ b s} _ h hs _ := by
    obtain ⟨⟨owner, h⟩, hhit⟩ := h
    obtain rfl := Option.some.inj hs
    exact ⟨⟨owner, h.entries, h.owned, h.holder, h.seen, h.hashes⟩, hhit⟩

/-- The hashed string is injective in what makes up a context; and in every run that asks for `M` only, on
    which the hash does not collide, a lookup gets nothing but its tenant's own answers. -/
theorem hits_isolated (cache : SemanticCache) {M : Set String} (hM : Set.InjOn cache.sha256.short M) :
    (∀ t r t' r', material t r = material t' r' ↔ SameContext t r t' r') ∧
      ∀ w tr i t r hit, World.Reaches (Asks M) (emptyPool cache) w →
        w.trace = .ended i (.lookup t r) (.ok (.found (some hit))) :: tr → OwnAnswer cache tr t r hit := by
  refine ⟨fun _ _ _ _ => material_eq_iff, fun w tr i t r hit hw htr => ?_⟩
  have hempty : Inv cache M (fun _ => none) (emptyPool cache).state [] fun _ => none := {
    entries := fun _ _ _ he => by cases he
    owned := fun _ _ ho => by cases ho
    holder := fun _ _ _ _ _ hi => by cases hi
    seen := fun _ _ _ _ hi => by cases hi
    hashes := fun _ _ _ hi => by cases hi }
  obtain ⟨Γ, -, -, hhit⟩ := (isolationRules hM).reaches watch_sound hw
    ⟨fun _ => none, fun _ => rfl, ⟨_, hempty⟩, fun _ _ _ _ _ heq => by cases heq⟩
  exact hhit i t r hit tr htr

end Run

/-! ### A question asked twice -/

namespace AskedTwice

/-- On a single question no hash collides. -/
def sha256 : Sha256 where
  hexdigest _ := "00000000000000000000000000000000"
  hex _ := by decide

def cache : SemanticCache where
  sha256
  embedder _ := [1]
  index := .bruteForce
  threshold := 9 / 10
  ttl := 60
  maxEntries := 100
  inRange := by norm_num

def ask : ChatRequest := { messages := [⟨.system, "be brief"⟩, ⟨.user, "who is there"⟩], nonempty := by decide }

def answer : CachedCompletion := ⟨"no one", "m", "stop", 4, 2, "d", 0⟩

def asked : Set String := {material "acme" ask}

def acts : List (system cache).Act :=
  [.start 0 (.store "acme" ask answer), .op 0 .ok, .op 0 (.id "00000000000000000000000000000001"), .op 0 (.time 0),
   .op 0 .ok, .start 1 (.lookup "acme" ask), .op 1 .ok, .op 1 .ok, .op 1 .ok, .op 1 .ok]

/-- The hit with which the last step of a run ended a lookup. -/
def hitOf (w : Pool cache) : Option CacheHit :=
  match w.trace with
  | .ended _ (.lookup _ _) (.ok (.found hit)) :: _ => hit
  | _ => none

theorem run_hits : ((emptyPool cache).run acts).bind hitOf = some ⟨answer, 1⟩ := by decide +kernel

theorem hitOf_eq {w : Pool cache} {hit : CacheHit} (h : hitOf w = some hit) :
    ∃ i t r tr, w.trace = .ended i (.lookup t r) (.ok (.found (some hit))) :: tr := by
  unfold hitOf at h
  split at h
  · rename_i i t r hit' tr htr
    exact ⟨i, t, r, tr, h ▸ htr⟩
  · cases h

/-- What a tenant has stored, its lookup finds. -/
theorem hit_own : ∃ w i t r tr, World.Reaches (Asks asked) (emptyPool cache) w ∧
    w.trace = .ended i (.lookup t r) (.ok (.found (some ⟨answer, 1⟩))) :: tr ∧ OwnAnswer cache tr t r ⟨answer, 1⟩ := by
  obtain ⟨w, hw, hhit⟩ := Option.bind_eq_some_iff.mp run_hits
  obtain ⟨i, t, r, tr, htr⟩ := hitOf_eq hhit
  have hreach : World.Reaches (Asks asked) (emptyPool cache) w := by
    refine World.reaches_of_run (fun a ha _ => ?_) hw
    have hm : material "acme" ask ∈ asked := Set.mem_singleton _
    simp only [acts, List.mem_cons, List.not_mem_nil, or_false] at ha
    rcases ha with rfl | rfl | rfl | rfl | rfl | rfl | rfl | rfl | rfl | rfl
    exacts [hm, trivial, trivial, trivial, trivial, hm, trivial, trivial, trivial, trivial]
  exact ⟨w, i, t, r, tr, hreach, htr, (hits_isolated cache (Set.injOn_singleton _ _)).2 w tr i t r _ hreach htr⟩

end AskedTwice
end NexusGate.Cache
