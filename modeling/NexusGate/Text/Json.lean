import Mathlib.Data.List.Sort
import Mathlib.Logic.Function.Basic

/-! # JSON texts

Values and the text that a JSON writer makes of them, with `", "` and `": "` between the parts and everything
outside printable ASCII escaped. The text determines the value: each part is a prefix code, or ends where a
`,`, `]` or `}` follows. -/

namespace Text

/-- What `f` writes can be split off the front of any longer text. -/
def PrefixFree {α : Type} (f : α → List Char) : Prop := ∀ a b x y, f a ++ x = f b ++ y → a = b ∧ x = y

/-- A writer with a reader for it. -/
theorem PrefixFree.of_reader {α : Type} {f : α → List Char} (read : List Char → Option (α × List Char))
    (h : ∀ a x, read (f a ++ x) = some (a, x)) : PrefixFree f := by
  intro a b x y he
  have := (h a x).symm.trans (he ▸ h b y)
  exact Prod.mk.inj (Option.some.inj this)

/-! ### Escapes -/

def hexDigit (n : Nat) : Char := if n < 10 then Char.ofNat (48 + n) else Char.ofNat (87 + n)

def hexValue (c : Char) : Nat := if c.toNat < 58 then c.toNat - 48 else c.toNat - 87

theorem hexValue_hexDigit {n : Nat} (h : n < 16) : hexValue (hexDigit n) = n := by
  revert h
  revert n
  decide

/-- `\\uXXXX`. -/
def unit (n : Nat) : List Char :=
  ['\\', 'u', hexDigit (n / 4096 % 16), hexDigit (n / 256 % 16), hexDigit (n / 16 % 16), hexDigit (n % 16)]

/-- The escapes with a letter of their own. -/
def letter (c : Char) : Option Char :=
  if c = '"' then some '"'
  else if c = '\\' then some '\\'
  else if c = '\n' then some 'n'
  else if c = '\r' then some 'r'
  else if c = '\t' then some 't'
  else if c = '\x08' then some 'b'
  else if c = '\x0c' then some 'f'
  else none

/-- One character of a string: itself, an escape, or two escapes for a surrogate pair. -/
def escape (c : Char) : List Char :=
  match letter c with
  | some k => ['\\', k]
  | none =>
    if ' ' ≤ c ∧ c ≤ '~' then [c]
    else if c.toNat < 0x10000 then unit c.toNat
    else unit (0xd800 + (c.toNat - 0x10000) / 0x400) ++ unit (0xdc00 + (c.toNat - 0x10000) % 0x400)

/-- The number behind `\\u`. -/
def readUnit : List Char → Option (Nat × List Char)
  | '\\' :: 'u' :: a :: b :: c :: d :: x =>
    some (hexValue a * 4096 + hexValue b * 256 + hexValue c * 16 + hexValue d, x)
  | _ => none

theorem readUnit_unit {n : Nat} (h : n < 0x10000) {x : List Char} : readUnit (unit n ++ x) = some (n, x) := by
  have hd : ∀ m, hexValue (hexDigit (m % 16)) = m % 16 := fun m => hexValue_hexDigit (Nat.mod_lt _ (by decide))
  simp only [unit, List.cons_append, List.nil_append, readUnit, hd]
  congr 2
  omega

def unletter (k : Char) : Option Char :=
  if k = '"' then some '"'
  else if k = '\\' then some '\\'
  else if k = 'n' then some '\n'
  else if k = 'r' then some '\r'
  else if k = 't' then some '\t'
  else if k = 'b' then some '\x08'
  else if k = 'f' then some '\x0c'
  else none

theorem unletter_letter {c k : Char} (h : letter c = some k) : unletter k = some c := by
  unfold letter at h
  split_ifs at h with h₁ h₂ h₃ h₄ h₅ h₆ h₇ <;> cases h <;> subst_vars <;> decide

theorem letter_ne_u {c : Char} : letter c ≠ some 'u' := by
  intro h
  have := unletter_letter h
  rw [show unletter 'u' = none from by decide] at this
  cases this

/-- The character behind `\u`, or behind two of them. -/
def readEscape (x : List Char) : Option (Char × List Char) :=
  (readUnit x).bind fun (n, y) =>
    if n < 0xd800 ∨ 0xdfff < n then some (Char.ofNat n, y)
    else (readUnit y).map fun (m, z) => (Char.ofNat (0x10000 + (n - 0xd800) * 0x400 + (m - 0xdc00)), z)

/-- Read one character of a string back. -/
def readChar : List Char → Option (Char × List Char)
  | [] => none
  | c :: x =>
    if c = '\\' then match x with
      | [] => none
      | k :: y => if k = 'u' then readEscape (c :: x) else (unletter k).map fun c => (c, y)
    else some (c, x)

theorem valid_toNat (c : Char) : c.toNat < 0xd800 ∨ (0xdfff < c.toNat ∧ c.toNat < 0x110000) := c.valid

theorem readChar_escape (c : Char) (x : List Char) : readChar (escape c ++ x) = some (c, x) := by
  have hof : Char.ofNat c.toNat = c := Char.ofNat_toNat c
  have hv := valid_toNat c
  unfold escape
  cases hl : letter c with
  | some k =>
    have hk : k ≠ 'u' := fun h => letter_ne_u (h ▸ hl)
    simp [readChar, hk, unletter_letter hl]
  | none =>
    simp only
    split_ifs with hp hb
    · have hc : c ≠ '\\' := by
        rintro rfl
        exact absurd hl (by decide)
      simp [readChar, hc]
    · have hread := readUnit_unit hb (x := x)
      have hchar : readChar (unit c.toNat ++ x) = readEscape (unit c.toNat ++ x) := rfl
      rw [hchar, readEscape, hread, Option.bind_some]
      simp only
      rw [if_pos (by omega), hof]
    · have hhigh := readUnit_unit (n := 0xd800 + (c.toNat - 0x10000) / 0x400) (by omega)
        (x := unit (0xdc00 + (c.toNat - 0x10000) % 0x400) ++ x)
      have hlow := readUnit_unit (n := 0xdc00 + (c.toNat - 0x10000) % 0x400) (by omega) (x := x)
      rw [List.append_assoc]
      have hchar : readChar (unit (0xd800 + (c.toNat - 0x10000) / 0x400) ++
          (unit (0xdc00 + (c.toNat - 0x10000) % 0x400) ++ x)) = readEscape (unit (0xd800 + (c.toNat - 0x10000) / 0x400) ++
          (unit (0xdc00 + (c.toNat - 0x10000) % 0x400) ++ x)) := rfl
      rw [hchar, readEscape, hhigh, Option.bind_some]
      simp only
      rw [if_neg (by omega), hlow, Option.map_some]
      have hn : 0x10000 + (0xd800 + (c.toNat - 0x10000) / 0x400 - 0xd800) * 0x400 +
          (0xdc00 + (c.toNat - 0x10000) % 0x400 - 0xdc00) = c.toNat := by omega
      rw [hn, hof]

theorem escape_prefixFree : PrefixFree escape := .of_reader readChar readChar_escape

theorem escape_ne_quote {c : Char} {x y : List Char} : escape c ++ x ≠ '"' :: y := by
  intro h
  have hr := readChar_escape c x
  rw [h] at hr
  simp only [readChar, show ¬ '"' = '\\' by decide, if_false, Option.some.injEq, Prod.mk.injEq] at hr
  obtain ⟨rfl, rfl⟩ := hr
  revert h
  simp [escape, letter]

/-! ### Strings -/

def quote (s : String) : List Char := '"' :: (s.toList.flatMap escape ++ ['"'])

theorem escapes_inj : ∀ {l m x y : List Char}, l.flatMap escape ++ '"' :: x = m.flatMap escape ++ '"' :: y →
    l = m ∧ x = y
  | [], [], _, _, h => ⟨rfl, (List.cons.inj h).2⟩
  | [], c :: m, x, y, h => by
    rw [List.flatMap_cons, List.append_assoc] at h
    exact absurd h.symm escape_ne_quote
  | c :: l, [], x, y, h => by
    rw [List.flatMap_cons, List.append_assoc] at h
    exact absurd h escape_ne_quote
  | c :: l, d :: m, x, y, h => by
    rw [List.flatMap_cons, List.flatMap_cons, List.append_assoc, List.append_assoc] at h
    obtain ⟨rfl, hr⟩ := escape_prefixFree c d _ _ h
    obtain ⟨rfl, rfl⟩ := escapes_inj hr
    exact ⟨rfl, rfl⟩

theorem quote_prefixFree : PrefixFree quote := by
  intro s t x y h
  simp only [quote, List.cons_append, List.append_assoc, List.cons.injEq, true_and, List.nil_append] at h
  obtain ⟨hl, rfl⟩ := escapes_inj h
  exact ⟨String.toList_injective hl, rfl⟩

/-! ### Numbers -/

def numberChar (c : Char) : Bool := c.isDigit || c == '-' || c == '+' || c == '.' || c == 'e' || c == 'E'

/-- The text of a number. -/
structure Number where
  text : List Char
  nonempty : text ≠ []
  chars : ∀ c ∈ text, numberChar c = true
  deriving DecidableEq

theorem Number.ext {m n : Number} (h : m.text = n.text) : m = n := by
  cases m
  cases n
  cases h
  rfl

def Number.ofNat (n : Nat) : Number where
  text := Nat.toDigits 10 n
  nonempty := Nat.toDigits_ne_nil
  chars c hc := by simp [numberChar, Nat.isDigit_of_mem_toDigits (by decide) (by decide) hc]

theorem Number.ofNat_injective : Function.Injective Number.ofNat := fun m n h => by
  have ht : Nat.toDigits 10 m = Nat.toDigits 10 n := congrArg Number.text h
  rw [← Nat.ofDigitChars_toDigits (b := 10) (n := m) (by decide) (by decide), ht,
    Nat.ofDigitChars_toDigits (by decide) (by decide)]

/-- No number goes on in `x`. -/
def Stops (x : List Char) : Prop := ∀ c ∈ x.head?, numberChar c = false

theorem number_inj : ∀ {l m x y : List Char}, (∀ c ∈ l, numberChar c = true) → (∀ c ∈ m, numberChar c = true) →
    Stops x → Stops y → l ++ x = m ++ y → l = m ∧ x = y
  | [], [], _, _, _, _, _, _, h => ⟨rfl, h⟩
  | [], c :: _, _, _, _, hm, hx, _, h => by
    rw [List.nil_append] at h
    subst h
    exact absurd (hm c List.mem_cons_self) (by simp [hx c rfl])
  | c :: _, [], _, _, hl, _, _, hy, h => by
    rw [List.nil_append] at h
    subst h
    exact absurd (hl c List.mem_cons_self) (by simp [hy c rfl])
  | c :: l, d :: m, x, y, hl, hm, hx, hy, h => by
    rw [List.cons_append, List.cons_append] at h
    obtain ⟨rfl, ht⟩ := List.cons.inj h
    obtain ⟨rfl, rfl⟩ := number_inj (fun c hc => hl c (List.mem_cons_of_mem _ hc))
      (fun c hc => hm c (List.mem_cons_of_mem _ hc)) hx hy ht
    exact ⟨rfl, rfl⟩

/-! ### Values -/

inductive Json
  | null
  | num (n : Number)
  | str (s : String)
  | arr (items : List Json)
  | obj (fields : List (String × Json))

mutual

def Json.write : Json → List Char
  | .null => ['n', 'u', 'l', 'l']
  | .num n => n.text
  | .str s => quote s
  | .arr [] => ['[', ']']
  | .arr (v :: vs) => '[' :: (v.write ++ writeItems vs)
  | .obj [] => ['{', '}']
  | .obj ((k, v) :: fs) => '{' :: (quote k ++ ':' :: ' ' :: (v.write ++ writeFields fs))

def writeItems : List Json → List Char
  | [] => [']']
  | v :: vs => ',' :: ' ' :: (v.write ++ writeItems vs)

def writeFields : List (String × Json) → List Char
  | [] => ['}']
  | (k, v) :: fs => ',' :: ' ' :: (quote k ++ ':' :: ' ' :: (v.write ++ writeFields fs))

end

def Json.kind : Json → Nat
  | .null => 0
  | .num _ => 1
  | .str _ => 2
  | .arr _ => 3
  | .obj _ => 4

/-- The kind of value that begins here. -/
def kindAt : List Char → Nat
  | 'n' :: _ => 0
  | '"' :: _ => 2
  | '[' :: _ => 3
  | '{' :: _ => 4
  | _ => 1

theorem kindAt_number {c : Char} (h : numberChar c = true) (x : List Char) : kindAt (c :: x) = 1 := by
  have hne : c ≠ 'n' ∧ c ≠ '"' ∧ c ≠ '[' ∧ c ≠ '{' := by
    refine ⟨?_, ?_, ?_, ?_⟩ <;> (rintro rfl; revert h; decide)
  obtain ⟨h₁, h₂, h₃, h₄⟩ := hne
  unfold kindAt
  split <;> simp_all

theorem Json.kindAt_write (v : Json) (x : List Char) : kindAt (v.write ++ x) = v.kind := by
  rcases v with _ | ⟨text, hne, hchars⟩ | s | vs | fs
  · rfl
  · cases text with
    | nil => exact absurd rfl hne
    | cons c l => exact kindAt_number (hchars c List.mem_cons_self) (l ++ x)
  · rfl
  · cases vs <;> rfl
  · rcases fs with _ | ⟨⟨k, v⟩, fs⟩ <;> rfl

theorem Json.kind_eq {v w : Json} {x y : List Char} (h : v.write ++ x = w.write ++ y) : v.kind = w.kind := by
  rw [← v.kindAt_write x, h, w.kindAt_write]

theorem Json.write_ne_close {v : Json} {x y : List Char} : v.write ++ x ≠ ']' :: y := by
  intro h
  have hk : v.kind = 1 := by rw [← v.kindAt_write x, h]; rfl
  cases v with
  | num n =>
    obtain ⟨text, hne, hchars⟩ := n
    cases text with
    | nil => exact hne rfl
    | cons c l =>
      obtain ⟨rfl, -⟩ := List.cons.inj h
      exact absurd (hchars _ List.mem_cons_self) (by decide)
  | _ => simp [Json.kind] at hk

theorem writeItems_stops (vs : List Json) (x : List Char) : Stops (writeItems vs ++ x) := by
  cases vs <;> (intro c hc; simp [writeItems] at hc; subst hc; decide)

theorem writeFields_stops (fs : List (String × Json)) (x : List Char) : Stops (writeFields fs ++ x) := by
  rcases fs with _ | ⟨⟨k, v⟩, fs⟩ <;> (intro c hc; simp [writeFields] at hc; subst hc; decide)

mutual

/-- A value can be split off the front of a text when no number goes on behind it. -/
theorem Json.write_inj : ∀ (v w : Json) {x y : List Char}, Stops x → Stops y → v.write ++ x = w.write ++ y →
    v = w ∧ x = y
  | .null, w, x, y, _, _, h => by
    have hk := Json.kind_eq h
    cases w with
    | null => exact ⟨rfl, by simpa [Json.write] using h⟩
    | _ => simp [Json.kind] at hk
  | .num m, w, x, y, hx, hy, h => by
    have hk := Json.kind_eq h
    cases w with
    | num n =>
      obtain ⟨ht, rfl⟩ := number_inj m.chars n.chars hx hy h
      exact ⟨congrArg _ (Number.ext ht), rfl⟩
    | _ => simp [Json.kind] at hk
  | .str s, w, x, y, _, _, h => by
    have hk := Json.kind_eq h
    cases w with
    | str t =>
      obtain ⟨rfl, rfl⟩ := quote_prefixFree s t x y h
      exact ⟨rfl, rfl⟩
    | _ => simp [Json.kind] at hk
  | .arr vs, w, x, y, _, _, h => by
    have hk := Json.kind_eq h
    cases w with
    | arr ws =>
      match vs, ws with
      | [], [] => exact ⟨rfl, by simpa [Json.write] using h⟩
      | [], w :: ws =>
        simp only [Json.write, List.cons_append, List.cons.injEq, true_and, List.append_assoc] at h
        exact absurd h.symm Json.write_ne_close
      | v :: vs, [] =>
        simp only [Json.write, List.cons_append, List.cons.injEq, true_and, List.append_assoc] at h
        exact absurd h Json.write_ne_close
      | v :: vs, w :: ws =>
        simp only [Json.write, List.cons_append, List.cons.injEq, true_and, List.append_assoc] at h
        obtain ⟨rfl, hr⟩ := Json.write_inj v w (writeItems_stops vs x) (writeItems_stops ws y) h
        obtain ⟨rfl, rfl⟩ := writeItems_inj vs ws hr
        exact ⟨rfl, rfl⟩
    | _ => simp [Json.kind] at hk
  | .obj fs, w, x, y, _, _, h => by
    have hk := Json.kind_eq h
    cases w with
    | obj gs =>
      match fs, gs with
      | [], [] => exact ⟨rfl, by simpa [Json.write] using h⟩
      | [], (k, v) :: gs => simp [Json.write, quote] at h
      | (k, v) :: fs, [] => simp [Json.write, quote] at h
      | (k, v) :: fs, (l, w) :: gs =>
        simp only [Json.write, List.cons_append, List.cons.injEq, true_and, List.append_assoc] at h
        obtain ⟨rfl, hq⟩ := quote_prefixFree k l _ _ h
        simp only [List.cons.injEq, true_and] at hq
        obtain ⟨rfl, hr⟩ := Json.write_inj v w (writeFields_stops fs x) (writeFields_stops gs y) hq
        obtain ⟨rfl, rfl⟩ := writeFields_inj fs gs hr
        exact ⟨rfl, rfl⟩
    | _ => simp [Json.kind] at hk

theorem writeItems_inj : ∀ (vs ws : List Json) {x y : List Char}, writeItems vs ++ x = writeItems ws ++ y →
    vs = ws ∧ x = y
  | [], [], _, _, h => ⟨rfl, by simpa [writeItems] using h⟩
  | [], w :: ws, _, _, h => by simp [writeItems] at h
  | v :: vs, [], _, _, h => by simp [writeItems] at h
  | v :: vs, w :: ws, x, y, h => by
    simp only [writeItems, List.cons_append, List.cons.injEq, true_and, List.append_assoc] at h
    obtain ⟨rfl, hr⟩ := Json.write_inj v w (writeItems_stops vs x) (writeItems_stops ws y) h
    obtain ⟨rfl, rfl⟩ := writeItems_inj vs ws hr
    exact ⟨rfl, rfl⟩

theorem writeFields_inj : ∀ (fs gs : List (String × Json)) {x y : List Char},
    writeFields fs ++ x = writeFields gs ++ y → fs = gs ∧ x = y
  | [], [], _, _, h => ⟨rfl, by simpa [writeFields] using h⟩
  | [], (l, w) :: gs, _, _, h => by simp [writeFields] at h
  | (k, v) :: fs, [], _, _, h => by simp [writeFields] at h
  | (k, v) :: fs, (l, w) :: gs, x, y, h => by
    simp only [writeFields, List.cons_append, List.cons.injEq, true_and, List.append_assoc] at h
    obtain ⟨rfl, hq⟩ := quote_prefixFree k l _ _ h
    simp only [List.cons.injEq, true_and] at hq
    obtain ⟨rfl, hr⟩ := Json.write_inj v w (writeFields_stops fs x) (writeFields_stops gs y) hq
    obtain ⟨rfl, rfl⟩ := writeFields_inj fs gs hr
    exact ⟨rfl, rfl⟩

end

/-- An object with its keys in order, as `sort_keys=True` writes it. -/
def Json.dict (fields : List (String × Json)) : Json := .obj (fields.insertionSort fun f g => f.1 ≤ g.1)

/-- `json.dumps` with its default separators. -/
def Json.dumps (v : Json) : String := .ofList v.write

theorem Json.dumps_injective : Function.Injective Json.dumps := fun v w h => by
  have hl : v.write ++ [] = w.write ++ [] := by
    rw [List.append_nil, List.append_nil]
    exact String.ofList_injective h
  exact (Json.write_inj v w (by simp [Stops]) (by simp [Stops]) hl).1

end Text
