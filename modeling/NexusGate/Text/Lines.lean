import NexusGate.Text.Words

/-! # Lines of a text

`str.splitlines()`, the strip of given characters, and the letters that become a given capital. -/

namespace Text

/-- The characters that end a line; `\r\n` ends one line, not two. -/
def isBreak (c : Char) : Bool :=
  let n := c.toNat
  (10 ≤ n && n ≤ 13) || (28 ≤ n && n ≤ 30) || n == 0x85 || n == 0x2028 || n == 0x2029

/-- The lines of a text whose first line has begun with `line`. -/
def linesAfter (line : List Char) : List Char → List (List Char)
  | [] => if line = [] then [] else [line]
  | '\r' :: '\n' :: cs => line :: linesAfter [] cs
  | c :: cs => if isBreak c then line :: linesAfter [] cs else linesAfter (line ++ [c]) cs

/-- `text.splitlines()`. -/
def splitlines (text : String) : List (List Char) := linesAfter [] text.toList

/-- `text.strip(chars)`. -/
def stripChars (chars : List Char) (cs : List Char) : List Char :=
  (cs.dropWhile chars.contains).rdropWhile chars.contains

/-- `text.strip()`, as a text. -/
def stripped (text : String) : String := .ofList (strip text.toList)

example : (splitlines "a\r\n\nb\n").map String.ofList = ["a", "", "b"] := by decide

/-! ### White space around a text -/

section Strip
variable {x sp : List Char}

theorem strip_dropWhile : strip (x.dropWhile isSpace) = strip x := by
  rw [strip, strip, List.dropWhile_idempotent]

theorem rdropWhile_append_spaces (h : ∀ c ∈ sp, isSpace c = true) : (x ++ sp).rdropWhile isSpace = x.rdropWhile isSpace := by
  induction sp using List.reverseRecOn with
  | nil => rw [List.append_nil]
  | append_singleton sp c ih =>
    rw [← List.append_assoc, List.rdropWhile_concat_pos _ _ _ (h c (by simp))]
    exact ih fun d hd => h d (List.mem_append_left _ hd)

theorem strip_append_spaces (h : ∀ c ∈ sp, isSpace c = true) : strip (x ++ sp) = strip x := by
  rw [strip, strip, List.dropWhile_append]
  split
  · rename_i hnil
    rw [List.isEmpty_iff.mp hnil, List.rdropWhile_nil, List.rdropWhile_eq_nil_iff]
    exact fun c hc => h c (List.dropWhile_suffix _ |>.subset hc)
  · exact rdropWhile_append_spaces h

/-- What a text is that has no white space at its ends. -/
theorem strip_eq_self (hhead : ∀ c ∈ x.head?, isSpace c = false) (hlast : ∀ c ∈ x.getLast?, isSpace c = false) : strip x = x := by
  have hdrop : x.dropWhile isSpace = x := by
    cases x with
    | nil => rfl
    | cons c x => exact List.dropWhile_cons_of_neg (by simp [hhead c rfl])
  rw [strip, hdrop, List.rdropWhile_eq_self_iff]
  intro hne hspace
  rw [hlast _ (List.getLast?_eq_some_getLast hne)] at hspace
  cases hspace

theorem getLast_strip : ∀ c ∈ (strip x).getLast?, isSpace c = false := by
  intro c hc
  have hne : strip x ≠ [] := by
    intro hnil
    rw [hnil] at hc
    cases hc
  rw [List.getLast?_eq_some_getLast hne] at hc
  cases hc
  exact Bool.eq_false_iff.mpr (List.rdropWhile_last_not isSpace (x.dropWhile isSpace) hne)

/-- What stands behind the text, but for the white space before it. -/
theorem dropWhile_eq_strip_append : ∃ sp, x.dropWhile isSpace = strip x ++ sp ∧ ∀ c ∈ sp, isSpace c = true :=
  ⟨_, List.rdropWhile_append_rtakeWhile.symm, fun _ => List.mem_rtakeWhile_imp⟩

end Strip

/-! ### Capital letters -/

/-- The code of a character in upper case. -/
theorem toUpper_toNat (c : Char) : c.toUpper.toNat = if 97 ≤ c.toNat ∧ c.toNat ≤ 122 then c.toNat - 32 else c.toNat := by
  unfold Char.toUpper
  split
  · rename_i h
    have hletter : 97 ≤ c.toNat ∧ c.toNat ≤ 122 := h
    have hshift : ('A'.val - 'a'.val).toNat = 4294967264 := by decide
    have hval : (c.val + ('A'.val - 'a'.val)).toNat = c.toNat - 32 := by
      rw [UInt32.toNat_add, hshift]
      change (c.toNat + 4294967264) % 2 ^ 32 = c.toNat - 32
      omega
    rw [if_pos hletter]
    exact hval
  · rename_i h
    change ¬(97 ≤ c.toNat ∧ c.toNat ≤ 122) at h
    rw [if_neg h]

/-- A capital letter comes of itself and of the small one, which stands thirty-two places on. -/
theorem toUpper_eq_iff {c d capital : Char} (hd : d.toNat = capital.toNat + 32)
    (hcapital : 65 ≤ capital.toNat ∧ capital.toNat ≤ 90) :
    c.toUpper = capital ↔ c = capital ∨ c = d := by
  rw [← Char.toNat_inj, toUpper_toNat, ← Char.toNat_inj, ← Char.toNat_inj, hd]
  split <;> omega

end Text
