import Mathlib.Data.List.AList
import Mathlib.Data.List.Dedup
import Mathlib.Data.List.Sort
import Mathlib.Data.Rat.Defs
import Mathlib.Algebra.Order.Ring.Rat

/-! # A Redis keyspace

One server, its keys with their types and expiry times, and what each command answers and leaves. A
command on a key of another type is an error and changes nothing, an expired key is an absent one, and an
aggregate that becomes empty is removed. Times are milliseconds of the server's clock; a time to live is
given in seconds, as `EX` and `EXPIRE` take it. What a string or hash value is made of is a parameter. -/

namespace Redis

/-- Values that the counting commands can read and write. -/
class Payload (β : Type) where
  ofInt : Int → β
  int? : β → Option Int
  ofRat : ℚ → β
  rat? : β → Option ℚ

inductive Value (β : Type)
  | str (b : β)
  | list (l : List β)
  | set (m : List String)
  | hash (h : AList fun _ : String => β)
  | zset (z : AList fun _ : String => ℚ)

structure Entry (β : Type) where
  value : Value β
  expiresAt : Option Nat := none

abbrev Store (β : Type) := AList fun _ : String => Entry β

inductive Reply (β : Type)
  | nil
  | ok
  | int (n : Int)
  | bulk (b : β)
  | bulks (l : List (Option β))
  | strings (l : List String)
  | error

inductive Cmd (β : Type)
  | get (k : String)
  | set (k : String) (v : β) (ex : Option Nat) (nx : Bool)
  | mget (ks : List String)
  | del (ks : List String)
  | incr (k : String)
  | expire (k : String) (seconds : Nat)
  | hset (k : String) (fields : List (String × β))
  | hget (k f : String)
  | hmget (k : String) (fs : List String)
  | hdel (k : String) (fs : List String)
  | hincrby (k f : String) (n : Int)
  | hincrbyfloat (k f : String) (q : ℚ)
  | zadd (k : String) (members : List (String × ℚ)) (nx : Bool)
  | zrem (k : String) (ms : List String)
  | zrange (k : String) (start stop : Int)
  | zrevrange (k : String) (start stop : Int)
  | zremrangebyscore (k : String) (max : ℚ)
  | zremrangebyrank (k : String) (start stop : Int)
  | sadd (k : String) (ms : List String)
  | smembers (k : String)
  | lpush (k : String) (v : β)
  | ltrim (k : String) (start stop : Int)

variable {β : Type}

/-! ## Reading -/

/-- Whether an entry still exists at time `now`. -/
def Entry.live (now : Nat) (e : Entry β) : Bool :=
  match e.expiresAt with
  | none => true
  | some t => now < t

/-- The entry of a key at time `now`. -/
def live? (now : Nat) (s : Store β) (k : String) : Option (Entry β) := (s.lookup k).filter (Entry.live now)

/-- The value of a key at time `now`. -/
def value? (now : Nat) (s : Store β) (k : String) : Option (Value β) := (live? now s k).map Entry.value

/-- The slice `start .. stop` of a list, both ends included, negative ends counted from the end. -/
def slice {α : Type} (l : List α) (start stop : Int) : List α :=
  let n : Int := l.length
  let first := if start < 0 then max 0 (n + start) else start
  let last := if stop < 0 then n + stop else stop
  (l.drop first.toNat).take (last - first + 1).toNat

theorem mem_of_mem_slice {α : Type} {l : List α} {start stop : Int} {a : α} (h : a ∈ slice l start stop) : a ∈ l :=
  List.mem_of_mem_drop (List.mem_of_mem_take h)

/-- Members of a sorted set by rising score, and by name where the scores are equal. -/
def ranked (z : AList fun _ : String => ℚ) : List String :=
  (z.entries.insertionSort fun a b => a.2 < b.2 ∨ (a.2 = b.2 ∧ a.1 ≤ b.1)).map Sigma.fst

/-! ## Writing -/

/-- A value without its empty aggregates. -/
@[grind =] def Value.trim : Value β → Option (Value β)
  | .list [] => none
  | .set [] => none
  | .hash h => if h.entries = [] then none else some (.hash h)
  | .zset z => if z.entries = [] then none else some (.zset z)
  | v => some v

/-- Replace the value of one key, keeping the time it expires at. -/
@[grind =] def modify (now : Nat) (s : Store β) (k : String) (f : Option (Value β) → Option (Value β × Reply β)) :
    Reply β × Store β :=
  match f (value? now s k) with
  | none => (.error, s)
  | some (v, r) =>
    match v.trim with
    | none => (r, s.erase k)
    | some v => (r, s.insert k ⟨v, (live? now s k).bind Entry.expiresAt⟩)

/-- The same for the fields of a hash, an absent key being an empty one. -/
@[grind =] def onHash (now : Nat) (s : Store β) (k : String)
    (f : (AList fun _ : String => β) → Option ((AList fun _ : String => β) × Reply β)) : Reply β × Store β :=
  modify now s k fun
    | none => (f ∅).map fun o => (.hash o.1, o.2)
    | some (.hash h) => (f h).map fun o => (.hash o.1, o.2)
    | some _ => none

@[grind =] def onZset (now : Nat) (s : Store β) (k : String)
    (f : (AList fun _ : String => ℚ) → (AList fun _ : String => ℚ) × Reply β) : Reply β × Store β :=
  modify now s k fun
    | none => some (.zset (f ∅).1, (f ∅).2)
    | some (.zset z) => some (.zset (f z).1, (f z).2)
    | some _ => none

@[grind =] def onList (now : Nat) (s : Store β) (k : String) (f : List β → List β × Reply β) : Reply β × Store β :=
  modify now s k fun
    | none => some (.list (f []).1, (f []).2)
    | some (.list l) => some (.list (f l).1, (f l).2)
    | some _ => none

def deadline (now : Nat) (seconds : Nat) : Nat := now + 1000 * seconds

/-- The members that a removal takes out of a sorted set. -/
def without (z : AList fun _ : String => ℚ) (ms : List String) : AList fun _ : String => ℚ :=
  ms.foldl (fun z m => z.erase m) z

/-- What a command answers and leaves at time `now`. -/
@[grind =] def exec [Payload β] (now : Nat) (c : Cmd β) (s : Store β) : Reply β × Store β :=
  match c with
  | .get k =>
    match value? now s k with
    | none => (.nil, s)
    | some (.str b) => (.bulk b, s)
    | some _ => (.error, s)
  | .set k v ex nx =>
    if ex = some 0 then (.error, s)
    else if nx && (value? now s k).isSome then (.nil, s)
    else (.ok, s.insert k ⟨.str v, ex.map (deadline now)⟩)
  | .mget ks =>
    (.bulks (ks.map fun k => match value? now s k with
      | some (.str b) => some b
      | _ => none), s)
  | .del ks => (.int (ks.countP fun k => (value? now s k).isSome), ks.foldl (fun s k => s.erase k) s)
  | .incr k => modify now s k fun
    | none => some (.str (Payload.ofInt 1), .int 1)
    | some (.str b) => (Payload.int? b).map fun n => (.str (Payload.ofInt (n + 1)), .int (n + 1))
    | some _ => none
  | .expire k seconds =>
    match live? now s k with
    | none => (.int 0, s)
    | some e => (.int 1, s.insert k { e with expiresAt := some (deadline now seconds) })
  | .hset k fields => onHash now s k fun h => some (fields.foldl (fun h f => h.insert f.1 f.2) h, .ok)
  | .hget k f =>
    match value? now s k with
    | none => (.nil, s)
    | some (.hash h) => ((h.lookup f).elim .nil .bulk, s)
    | some _ => (.error, s)
  | .hmget k fs =>
    match value? now s k with
    | none => (.bulks (fs.map fun _ => none), s)
    | some (.hash h) => (.bulks (fs.map h.lookup), s)
    | some _ => (.error, s)
  | .hdel k fs => onHash now s k fun h =>
    some (fs.foldl (fun h f => h.erase f) h, .int (fs.countP fun f => (h.lookup f).isSome))
  | .hincrby k f n => onHash now s k fun h =>
    match h.lookup f with
    | none => some (h.insert f (Payload.ofInt n), .int n)
    | some b => (Payload.int? b).map fun m => (h.insert f (Payload.ofInt (m + n)), .int (m + n))
  | .hincrbyfloat k f q => onHash now s k fun h =>
    match h.lookup f with
    | none => some (h.insert f (Payload.ofRat q), .bulk (Payload.ofRat q))
    | some b => (Payload.rat? b).map fun p => (h.insert f (Payload.ofRat (p + q)), .bulk (Payload.ofRat (p + q)))
  | .zadd k members nx => onZset now s k fun z =>
    (members.foldl (fun z m => if nx && (z.lookup m.1).isSome then z else z.insert m.1 m.2) z,
      .int (members.countP fun m => (z.lookup m.1).isNone))
  | .zrem k ms => onZset now s k fun z => (without z ms, .int (ms.countP fun m => (z.lookup m).isSome))
  | .zrange k start stop =>
    match value? now s k with
    | none => (.strings [], s)
    | some (.zset z) => (.strings (slice (ranked z) start stop), s)
    | some _ => (.error, s)
  | .zrevrange k start stop =>
    match value? now s k with
    | none => (.strings [], s)
    | some (.zset z) => (.strings (slice (ranked z).reverse start stop), s)
    | some _ => (.error, s)
  | .zremrangebyscore k max => onZset now s k fun z =>
    let out := (ranked z).filter fun m => (z.lookup m).any (· ≤ max)
    (without z out, .int out.length)
  | .zremrangebyrank k start stop => onZset now s k fun z =>
    let out := slice (ranked z) start stop
    (without z out, .int out.length)
  | .sadd k ms => modify now s k fun
    | none => some (.set ms.dedup, .int ms.dedup.length)
    | some (.set old) => some (.set (old ∪ ms), .int ((old ∪ ms).length - old.length))
    | some _ => none
  | .smembers k =>
    match value? now s k with
    | none => (.strings [], s)
    | some (.set m) => (.strings m, s)
    | some _ => (.error, s)
  | .lpush k v => onList now s k fun l => (v :: l, .int (l.length + 1))
  | .ltrim k start stop => onList now s k fun l => (slice l start stop, .ok)

/-- The commands between `MULTI` and `EXEC`, carried out as one; a command that fails does not stop the
    others. -/
def execAll [Payload β] (now : Nat) : List (Cmd β) → Store β → List (Reply β) × Store β
  | [], s => ([], s)
  | c :: cs, s =>
    let (r, s) := exec now c s
    let (rs, s) := execAll now cs s
    (r :: rs, s)

/-! ## What a command leaves alone -/

/-- The keys that a command may change. -/
@[grind =] def Cmd.writes : Cmd β → List String
  | .get _ | .mget _ | .hget _ _ | .hmget _ _ | .zrange _ _ _ | .zrevrange _ _ _ | .smembers _ => []
  | .del ks => ks
  | .set k _ _ _ | .incr k | .expire k _ | .hset k _ | .hdel k _ | .hincrby k _ _ | .hincrbyfloat k _ _
  | .zadd k _ _ | .zrem k _ | .zremrangebyscore k _ | .zremrangebyrank k _ _ | .sadd k _ | .lpush k _
  | .ltrim k _ _ => [k]

theorem Value.trim_eq {v v' : Value β} (h : v.trim = some v') : v' = v := by
  unfold Value.trim at h
  split at h
  · cases h
  · cases h
  · split at h
    · cases h
    · exact (Option.some.inj h).symm
  · split at h
    · cases h
    · exact (Option.some.inj h).symm
  · exact (Option.some.inj h).symm

/-- Where an entry comes from that is found under a key that was modified. -/
theorem modify_lookup {now : Nat} {s : Store β} {k : String} {f : Option (Value β) → Option (Value β × Reply β)}
    {e : Entry β} (h : (modify now s k f).2.lookup k = some e) :
    s.lookup k = some e ∨
      (∃ r, f (value? now s k) = some (e.value, r)) ∧ e.expiresAt = (live? now s k).bind Entry.expiresAt := by
  unfold modify at h
  split at h
  · exact Or.inl h
  · rename_i v r hf
    split at h
    · rw [AList.lookup_erase] at h
      cases h
    · rename_i v' ht
      rw [AList.lookup_insert] at h
      cases h
      exact Or.inr ⟨⟨r, Value.trim_eq ht ▸ hf⟩, rfl⟩

theorem lookup_of_live? {now : Nat} {s : Store β} {k : String} {e : Entry β} (h : live? now s k = some e) :
    s.lookup k = some e :=
  (Option.filter_eq_some_iff.mp h).1

theorem lookup_of_value? {now : Nat} {s : Store β} {k : String} {v : Value β} (h : value? now s k = some v) :
    ∃ e, s.lookup k = some e ∧ e.value = v := by
  obtain ⟨e, he, hv⟩ := Option.map_eq_some_iff.mp h
  exact ⟨e, lookup_of_live? he, hv⟩

theorem modify_frame {now : Nat} {s : Store β} {k k' : String}
    {f : Option (Value β) → Option (Value β × Reply β)} (h : k' ≠ k) :
    (modify now s k f).2.lookup k' = s.lookup k' := by
  unfold modify
  split
  · rfl
  · split
    · exact AList.lookup_erase_ne h
    · exact AList.lookup_insert_ne h

theorem exec_set [Payload β] {now n : Nat} {s : Store β} {k : String} {v : β} (hn : 0 < n) :
    exec now (.set k v (some n) false) s = (.ok, s.insert k ⟨.str v, some (deadline now n)⟩) := by
  simp [exec, hn.ne']

theorem exec_incr_new [Payload β] {now : Nat} {s : Store β} {k : String} (h : value? now s k = none) :
    exec now (.incr k) s = (.int 1, s.insert k ⟨.str (Payload.ofInt 1), none⟩) := by
  have he : live? now s k = none := Option.map_eq_none_iff.mp h
  simp [exec, modify, h, he, Value.trim]

theorem insertAll_ne_nil {fields : List (String × β)} (hf : fields ≠ []) {h : AList fun _ : String => β} :
    (fields.foldl (fun h f => h.insert f.1 f.2) h).entries ≠ [] := by
  induction fields generalizing h with
  | nil => exact absurd rfl hf
  | cons f fs ih =>
    by_cases hfs : fs = []
    · subst hfs
      simp
    · exact ih hfs

/-- What `HSET` leaves of a hash, or of nothing. -/
theorem exec_hset_hash [Payload β] {now : Nat} {s : Store β} {k : String} {fields : List (String × β)}
    {h : AList fun _ : String => β} (hf : fields ≠ [])
    (hv : (value? now s k = none ∧ h = ∅) ∨ value? now s k = some (.hash h)) :
    (exec now (.hset k fields) s).2 = s.insert k ⟨.hash (fields.foldl (fun h f => h.insert f.1 f.2) h),
      (live? now s k).bind Entry.expiresAt⟩ := by
  have ht : (Value.hash (fields.foldl (fun h f => h.insert f.1 f.2) h) : Value β).trim = some (.hash _) :=
    if_neg (insertAll_ne_nil hf)
  rcases hv with ⟨hv, rfl⟩ | hv
  · simp only [exec, onHash, modify, hv, Option.map_some, ht]
  · simp only [exec, onHash, modify, hv, Option.map_some, ht]

theorem exec_zadd_new [Payload β] {now : Nat} {s : Store β} {k : String} {members : List (String × ℚ)} {nx : Bool}
    (h : value? now s k = none) : ∃ n, (exec now (.zadd k members nx) s).1 = .int n := by
  simp only [exec, onZset, modify, h]
  split <;> exact ⟨_, rfl⟩

theorem live?_insert {now : Nat} {s : Store β} {k : String} {e : Entry β} (h : e.live now = true) :
    live? now (s.insert k e) k = some e := by
  simp [live?, Option.filter, h]

theorem exec_expire_live [Payload β] {now n : Nat} {s : Store β} {k : String} {e : Entry β}
    (h : live? now s k = some e) :
    exec now (.expire k n) s = (.int 1, s.insert k { e with expiresAt := some (deadline now n) }) := by
  simp only [exec, h]

/-- What `SADD` leaves of a set, or of nothing. -/
theorem exec_sadd_set [Payload β] {now : Nat} {s : Store β} {k m : String} (h : ∀ v, value? now s k = some v → ∃ old, v = .set old) :
    ∃ members, (exec now (.sadd k [m]) s).2 = s.insert k ⟨.set members, (live? now s k).bind Entry.expiresAt⟩ ∧
      m ∈ members ∧ ∀ old, value? now s k = some (.set old) → ∀ x ∈ old, x ∈ members := by
  have ht : ∀ members : List String, m ∈ members → (Value.set members : Value β).trim = some (.set members) := by
    intro members hm
    cases members with
    | nil => cases hm
    | cons => rfl
  cases hv : value? now s k with
  | none =>
    have hm : m ∈ [m].dedup := List.mem_dedup.mpr List.mem_cons_self
    refine ⟨[m].dedup, ?_, hm, nofun⟩
    simp only [exec, modify, hv, ht _ hm]
  | some v =>
    obtain ⟨old, rfl⟩ := h v hv
    have hm : m ∈ old ∪ [m] := List.mem_union_iff.mpr (Or.inr List.mem_cons_self)
    refine ⟨old ∪ [m], ?_, hm, fun old' ho x hx => ?_⟩
    · simp only [exec, modify, hv, ht _ hm]
    · cases ho
      exact List.mem_union_iff.mpr (Or.inl hx)

/-- `EXPIRE` changes no value. -/
theorem exec_expire_value [Payload β] {now n : Nat} {s : Store β} {k : String} {e : Entry β}
    (h : (exec now (.expire k n) s).2.lookup k = some e) : ∃ e₀, s.lookup k = some e₀ ∧ e.value = e₀.value := by
  simp only [exec] at h
  split at h
  · exact ⟨e, h, rfl⟩
  · rename_i e₀ he₀
    rw [AList.lookup_insert] at h
    cases h
    exact ⟨e₀, lookup_of_live? he₀, rfl⟩

theorem exec_expire_int [Payload β] {now n : Nat} {s : Store β} {k : String} :
    ∃ m, (exec now (.expire k n) s).1 = .int m := by
  simp only [exec]
  split <;> exact ⟨_, rfl⟩

/-- A field that `HGET` found. -/
theorem exec_hget_bulk [Payload β] {now : Nat} {s : Store β} {k f : String} {b : β}
    (h : (exec now (.hget k f) s).1 = .bulk b) : ∃ fields, value? now s k = some (.hash fields) ∧ fields.lookup f = some b := by
  simp only [exec] at h
  split at h
  · cases h
  · rename_i fields hv
    cases hf : fields.lookup f with
    | none =>
      rw [hf] at h
      cases h
    | some b' =>
      rw [hf] at h
      cases h
      exact ⟨fields, hv, hf⟩
  · cases h

theorem lookup_eraseAll {k : String} : ∀ {ks : List String} {s : Store β}, k ∉ ks →
    (ks.foldl (fun s k => s.erase k) s).lookup k = s.lookup k
  | [], _, _ => rfl
  | k' :: ks, s, h => by
    obtain ⟨hne, hks⟩ := not_or.mp (List.mem_cons.not.mp h)
    rw [List.foldl_cons, lookup_eraseAll hks, AList.lookup_erase_ne hne]

/-- Deleting leaves nothing that was not there. -/
theorem lookup_of_eraseAll {k : String} {e : Entry β} : ∀ {ks : List String} {s : Store β},
    (ks.foldl (fun s k => s.erase k) s).lookup k = some e → k ∉ ks ∧ s.lookup k = some e
  | [], _, h => ⟨List.not_mem_nil, h⟩
  | k' :: ks, s, h => by
    obtain ⟨hks, h'⟩ := @lookup_of_eraseAll k e ks (s.erase k') h
    by_cases hk : k = k'
    · subst hk
      rw [AList.lookup_erase] at h'
      cases h'
    · exact ⟨by simp [hk, hks], (AList.lookup_erase_ne hk).symm.trans h'⟩

/-- A command changes no key but those it writes. -/
theorem exec_frame [Payload β] {now : Nat} {c : Cmd β} {s : Store β} {k : String} (h : k ∉ c.writes) :
    (exec now c s).2.lookup k = s.lookup k := by
  cases c <;> simp only [Cmd.writes, List.mem_singleton] at h <;> simp only [exec]
  case get => split <;> rfl
  case hget => split <;> rfl
  case hmget => split <;> rfl
  case zrange => split <;> rfl
  case zrevrange => split <;> rfl
  case smembers => split <;> rfl
  case set =>
    split
    · rfl
    · split
      · rfl
      · exact AList.lookup_insert_ne h
  case expire =>
    split
    · rfl
    · exact AList.lookup_insert_ne h
  case del => exact lookup_eraseAll h
  all_goals exact modify_frame h

theorem execAll_frame [Payload β] {now : Nat} {k : String} : ∀ {cs : List (Cmd β)} {s : Store β},
    (∀ c ∈ cs, k ∉ c.writes) → (execAll now cs s).2.lookup k = s.lookup k
  | [], _, _ => rfl
  | c :: cs, s, h => by
    simp only [execAll]
    rw [execAll_frame fun c' hc' => h c' (List.mem_cons_of_mem _ hc'), exec_frame (h c List.mem_cons_self)]

/-- What a transaction leaves under a key that only its first command writes. -/
theorem execAll_cons_frame [Payload β] {now : Nat} {k : String} {c : Cmd β} {cs : List (Cmd β)} {s : Store β}
    (h : ∀ c' ∈ cs, k ∉ c'.writes) : (execAll now (c :: cs) s).2.lookup k = (exec now c s).2.lookup k :=
  execAll_frame h

theorem execAll_cons_snd [Payload β] {now : Nat} {c : Cmd β} {cs : List (Cmd β)} {s : Store β} :
    (execAll now (c :: cs) s).2 = (execAll now cs (exec now c s).2).2 :=
  rfl

theorem execAll_cons_fst [Payload β] {now : Nat} {c : Cmd β} {cs : List (Cmd β)} {s : Store β} :
    (execAll now (c :: cs) s).1 = (exec now c s).1 :: (execAll now cs (exec now c s).2).1 :=
  rfl

theorem execAll_append [Payload β] {now : Nat} : ∀ {cs ds : List (Cmd β)} {s : Store β},
    (execAll now (cs ++ ds) s).2 = (execAll now ds (execAll now cs s).2).2
  | [], _, _ => rfl
  | c :: cs, ds, s => @execAll_append _ now cs ds (exec now c s).2

/-- An entry that is there and has not expired. -/
theorem live?_eq_some {now : Nat} {s : Store β} {k : String} {e : Entry β} :
    live? now s k = some e ↔ s.lookup k = some e ∧ e.live now = true :=
  Option.filter_eq_some_iff

theorem live?_congr {now : Nat} {s t : Store β} {k : String} (h : t.lookup k = s.lookup k) :
    live? now t k = live? now s k := by
  rw [live?, live?, h]

theorem value?_congr {now : Nat} {s t : Store β} {k : String} (h : t.lookup k = s.lookup k) :
    value? now t k = value? now s k := by
  rw [value?, value?, live?_congr h]

/-! ## Hashes -/

/-- The fields of a hash, none where there is no key. -/
def hash? (now : Nat) (s : Store β) (k : String) : Option (AList fun _ : String => β) :=
  match value? now s k with
  | none => some ∅
  | some (.hash h) => some h
  | some _ => none

theorem hash?_congr {now : Nat} {s t : Store β} {k : String} (h : t.lookup k = s.lookup k) :
    hash? now t k = hash? now s k := by
  rw [hash?, hash?, value?_congr h]

/-- A value that takes over the time at which a live entry expires. -/
theorem live?_insert_kept {now : Nat} {s : Store β} {k : String} {v : Value β} :
    live? now (s.insert k ⟨v, (live? now s k).bind Entry.expiresAt⟩) k = some ⟨v, (live? now s k).bind Entry.expiresAt⟩ := by
  refine live?_insert ?_
  cases h : live? now s k with
  | none => rfl
  | some e => exact (live?_eq_some.mp h).2

/-- What is found under a key that was modified. -/
theorem modify_value {now : Nat} {s : Store β} {k : String} {v : Value β} {r : Reply β}
    {f : Option (Value β) → Option (Value β × Reply β)} (hf : f (value? now s k) = some (v, r)) :
    (modify now s k f).1 = r ∧ value? now (modify now s k f).2 k = v.trim := by
  cases ht : v.trim with
  | none =>
    have : modify now s k f = (r, s.erase k) := by simp only [modify, hf, ht]
    simp [this, value?, live?]
  | some v' =>
    have : modify now s k f = (r, s.insert k ⟨v', (live? now s k).bind Entry.expiresAt⟩) := by simp only [modify, hf, ht]
    simp only [this, value?, live?_insert_kept, Option.map_some, and_self]

theorem modify_hash {now : Nat} {s : Store β} {k : String} {h : AList fun _ : String => β} {r : Reply β}
    {f : Option (Value β) → Option (Value β × Reply β)} (hf : f (value? now s k) = some (.hash h, r)) :
    (modify now s k f).1 = r ∧ hash? now (modify now s k f).2 k = some h := by
  obtain ⟨hr, hv⟩ := modify_value hf
  refine ⟨hr, ?_⟩
  rw [hash?, hv]
  by_cases he : h.entries = []
  · rw [Value.trim, if_pos he]
    exact congrArg some (AList.ext he).symm
  · rw [Value.trim, if_neg he]

/-- A command on a hash, or on nothing, leaves a hash or nothing. -/
theorem onHash_hash {now : Nat} {s : Store β} {k : String} {h h' : AList fun _ : String => β} {r : Reply β}
    {f : (AList fun _ : String => β) → Option ((AList fun _ : String => β) × Reply β)} (hh : hash? now s k = some h)
    (hf : f h = some (h', r)) : (onHash now s k f).1 = r ∧ hash? now (onHash now s k f).2 k = some h' := by
  refine modify_hash ?_
  unfold hash? at hh
  split at hh
  · cases hh
    simp only [hf, Option.map_some]
  · cases hh
    simp only [hf, Option.map_some]
  · cases hh

theorem exec_hdel_hash [Payload β] {now : Nat} {s : Store β} {k : String} {fs : List String} {h : AList fun _ : String => β}
    (hh : hash? now s k = some h) : (∃ n, (exec now (.hdel k fs) s).1 = .int n) ∧
      hash? now (exec now (.hdel k fs) s).2 k = some (fs.foldl (fun h f => h.erase f) h) :=
  have ⟨hr, hs⟩ := onHash_hash hh rfl
  ⟨⟨_, hr⟩, hs⟩

theorem exec_hmget_hash [Payload β] {now : Nat} {s : Store β} {k : String} {h : AList fun _ : String => β} (fs : List String)
    (hh : hash? now s k = some h) : exec now (.hmget k fs) s = (.bulks (fs.map h.lookup), s) := by
  unfold hash? at hh
  split at hh
  · rename_i hv
    cases hh
    simp [exec, hv]
  · rename_i hv
    cases hh
    simp only [exec, hv]
  · cases hh

/-- `HINCRBY` counts on from what is there, an absent field being 0. -/
theorem exec_hincrby_hash [Payload β] {now : Nat} {s : Store β} {k f : String} {n m : Int} {h : AList fun _ : String => β}
    (hh : hash? now s k = some h) (hf : (h.lookup f = none ∧ m = 0) ∨ ∃ b, h.lookup f = some b ∧ Payload.int? b = some m) :
    (exec now (.hincrby k f n) s).1 = .int (m + n) ∧
      hash? now (exec now (.hincrby k f n) s).2 k = some (h.insert f (Payload.ofInt (m + n))) := by
  refine onHash_hash hh ?_
  rcases hf with ⟨hf, rfl⟩ | ⟨b, hf, hb⟩
  · simp [hf]
  · simp [hf, hb]

/-- The same for `HINCRBYFLOAT`. -/
theorem exec_hincrbyfloat_hash [Payload β] {now : Nat} {s : Store β} {k f : String} {q p : ℚ} {h : AList fun _ : String => β}
    (hh : hash? now s k = some h) (hf : (h.lookup f = none ∧ p = 0) ∨ ∃ b, h.lookup f = some b ∧ Payload.rat? b = some p) :
    hash? now (exec now (.hincrbyfloat k f q) s).2 k = some (h.insert f (Payload.ofRat (p + q))) := by
  refine (onHash_hash (r := .bulk (Payload.ofRat (p + q))) hh ?_).2
  rcases hf with ⟨hf, rfl⟩ | ⟨b, hf, hb⟩
  · simp [hf]
  · simp [hf, hb]

/-- A key that is not there is an empty hash. -/
theorem hash?_of_absent {now : Nat} {s : Store β} {k : String} (h : live? now s k = none) : hash? now s k = some ∅ := by
  simp only [hash?, value?, h, Option.map_none]

/-- The string that `MGET` finds under a key. -/
def str? (now : Nat) (s : Store β) (k : String) : Option β :=
  match value? now s k with
  | some (.str b) => some b
  | _ => none

theorem exec_mget [Payload β] {now : Nat} {s : Store β} {ks : List String} :
    exec now (.mget ks) s = (.bulks (ks.map (str? now s)), s) := by
  simp only [exec]
  congr 3

theorem str?_of_value {now : Nat} {s : Store β} {k : String} {b : β} (h : value? now s k = some (.str b)) :
    str? now s k = some b := by
  rw [str?, h]

/-! ## Counters and sorted sets -/

/-- What a counter stands at, 0 where there is no key. -/
def int? [Payload β] (now : Nat) (s : Store β) (k : String) : Option Int :=
  match value? now s k with
  | none => some 0
  | some (.str b) => Payload.int? b
  | some _ => none

/-- The members of a sorted set, none where there is no key. -/
def zset? (now : Nat) (s : Store β) (k : String) : Option (AList fun _ : String => ℚ) :=
  match value? now s k with
  | none => some ∅
  | some (.zset z) => some z
  | some _ => none

theorem int?_congr [Payload β] {now : Nat} {s t : Store β} {k : String} (h : value? now t k = value? now s k) :
    int? now t k = int? now s k := by
  rw [int?, int?, h]

theorem zset?_congr {now : Nat} {s t : Store β} {k : String} (h : value? now t k = value? now s k) :
    zset? now t k = zset? now s k := by
  rw [zset?, zset?, h]

theorem exec_incr_int [Payload β] {now : Nat} {s : Store β} {k : String} {n : Int} (h : int? now s k = some n) :
    (exec now (.incr k) s).1 = .int (n + 1) ∧
      value? now (exec now (.incr k) s).2 k = some (.str (Payload.ofInt (n + 1))) := by
  refine modify_value (v := .str (Payload.ofInt (n + 1))) ?_
  unfold int? at h
  split at h
  · rename_i hv
    cases h
    simp only [zero_add]
  · rename_i hv
    simp only [h, Option.map_some]
  · cases h

/-- What a command on a sorted set, or on nothing, answers and leaves. -/
theorem onZset_zset {now : Nat} {s : Store β} {k : String} {z : AList fun _ : String => ℚ}
    {f : (AList fun _ : String => ℚ) → (AList fun _ : String => ℚ) × Reply β} (h : zset? now s k = some z) :
    onZset now s k f = ((f z).2, if (f z).1.entries = [] then s.erase k
      else s.insert k ⟨.zset (f z).1, (live? now s k).bind Entry.expiresAt⟩) := by
  have hmodify {g : Option (Value β) → Option (Value β × Reply β)} (hg : g (value? now s k) = some (.zset (f z).1, (f z).2)) :
      Redis.modify now s k g = ((f z).2, if (f z).1.entries = [] then s.erase k
        else s.insert k ⟨.zset (f z).1, (live? now s k).bind Entry.expiresAt⟩) := by
    rw [Redis.modify, hg]
    by_cases hz : (f z).1.entries = []
    · simp only [Value.trim, if_pos hz]
    · simp only [Value.trim, if_neg hz]
  refine hmodify ?_
  unfold zset? at h
  split at h
  · cases h
    rfl
  · cases h
    rfl
  · cases h

theorem exec_zadd_zset [Payload β] {now : Nat} {s : Store β} {k : String} {members : List (String × ℚ)} {nx : Bool}
    {z : AList fun _ : String => ℚ} (h : zset? now s k = some z) :
    (∃ n, (exec now (.zadd k members nx) s).1 = .int n) ∧ ∃ z', zset? now (exec now (.zadd k members nx) s).2 k = some z' := by
  have hmodify : ∀ {f : Option (Value β) → Option (Value β × Reply β)} {z' : AList fun _ : String => ℚ} {n : Int},
      f (value? now s k) = some (.zset z', .int n) →
        (∃ n, (modify now s k f).1 = .int n) ∧ ∃ z', zset? now (modify now s k f).2 k = some z' := by
    intro f z' n hf
    obtain ⟨hr, hv⟩ := modify_value hf
    refine ⟨⟨n, hr⟩, ?_⟩
    rw [zset?, hv]
    by_cases hz : z'.entries = []
    · exact ⟨∅, by rw [Value.trim, if_pos hz]⟩
    · exact ⟨z', by rw [Value.trim, if_neg hz]⟩
  unfold zset? at h
  split at h
  · rename_i hv
    exact hmodify (by simp only [hv]; rfl)
  · rename_i hv
    exact hmodify (by simp only [hv]; rfl)
  · cases h

/-- `EXPIRE` into the future takes nothing away. -/
theorem exec_expire_keeps [Payload β] {now n : Nat} {s : Store β} {k k' : String} (hn : 0 < n) :
    value? now (exec now (.expire k n) s).2 k' = value? now s k' := by
  by_cases hk : k' = k
  · subst hk
    cases hl : live? now s k' with
    | none => simp only [exec, hl]
    | some e =>
      have hlive : ({ e with expiresAt := some (deadline now n) } : Entry β).live now = true := by
        simp [Entry.live, deadline, hn]
      rw [exec_expire_live hl, value?, live?_insert hlive, value?, hl]
      rfl
  · exact value?_congr (exec_frame (by simpa [Cmd.writes] using hk))

/-- `EXPIRE` leaves the fields as they are, or deletes the key. -/
theorem exec_expire_hash [Payload β] {now n : Nat} {s : Store β} {k : String} :
    live? now (exec now (.expire k n) s).2 k = none ∨
      hash? now (exec now (.expire k n) s).2 k = hash? now s k := by
  cases n with
  | zero =>
    left
    cases hl : live? now s k with
    | none => simp only [exec, hl]
    | some e => simp [exec_expire_live hl, live?, Entry.live, deadline, Option.filter]
  | succ n =>
    right
    rw [hash?, hash?, exec_expire_keeps (Nat.succ_pos n)]

/-- Time only takes keys away. -/
theorem live?_later {now later : Nat} (hle : now ≤ later) {s : Store β} {k : String} :
    live? later s k = none ∨ live? later s k = live? now s k := by
  unfold live?
  cases s.lookup k with
  | none => exact Or.inl rfl
  | some e =>
    cases hl : e.live later with
    | false => exact Or.inl (by simp [Option.filter, hl])
    | true =>
      refine Or.inr ?_
      have : e.live now = true := by
        unfold Entry.live at hl ⊢
        split <;> simp_all
        omega
      simp [Option.filter, hl, this]

end Redis
