import NexusGate.Rag.Ingestion
import NexusGate.Theorems.Rag.Headings

/-! # The title and the first heading

`infer_title` and `_split_units` each have a pattern of their own for a heading of level 1. They agree on a heading whose
mark is in the first column, with its text on the same line, within the first 2000 characters. -/

namespace NexusGate.Rag
open Text

/-- The text of a line that is a heading of level 1. -/
def level1 (line : List Char) : Option (List Char) :=
  match heading (strip line) with
  | some (1, text) => some text
  | _ => none

theorem level1_eq_some {line t : List Char} : level1 line = some t ↔ heading (strip line) = some (1, t) := by
  rw [level1]
  constructor
  · intro h
    split at h
    · rename_i hheading
      rw [hheading, Option.some.inj h]
    · cases h
  · intro h
    simp only [h]

/-- Where the line after some lines begins. -/
def offset (before : List (List Char)) : Nat := (before.map fun line => line.length + 1).sum

/-- `_H1` matches at the beginning of the text, of which the first characters are read. -/
def Candidate (limit : Nat) (text : List Char) : Prop := ∃ cs, text.take limit = '#' :: cs ∧ (h1Group cs).isSome

instance {limit : Nat} {text : List Char} : Decidable (Candidate limit text) :=
  decidable_of_iff ((text.take limit).head? = some '#' ∧ (h1Group (text.take limit).tail).isSome) (by
    cases h : text.take limit <;> simp [Candidate, h])

/-! ### Searching the lines -/

theorem search_rest : ∀ {line rest : List Char} {n : Nat}, '\n' ∉ line →
    searchH1 false ((line ++ '\n' :: rest).take n) = searchH1 true (rest.take (n - (line.length + 1)))
  | _, _, 0, _ => by rw [Nat.zero_sub]; rfl
  | [], _, _ + 1, _ => rfl
  | d :: line, rest, n + 1, h => by
    have hd : (d == '\n') = false := beq_eq_false_iff_ne.mpr fun hd => h (hd ▸ List.mem_cons_self)
    rw [List.cons_append, List.take_succ_cons, searchH1, hd, search_rest fun hc => h (List.mem_cons_of_mem _ hc),
      List.length_cons, Nat.add_sub_add_right]
    rfl

theorem search_last : ∀ {line : List Char} {n : Nat}, '\n' ∉ line → searchH1 false (line.take n) = none
  | _, 0, _ => rfl
  | [], _ + 1, _ => rfl
  | d :: line, n + 1, h => by
    have hd : (d == '\n') = false := beq_eq_false_iff_ne.mpr fun hd => h (hd ▸ List.mem_cons_self)
    rw [List.take_succ_cons, searchH1, hd, search_last fun hc => h (List.mem_cons_of_mem _ hc)]
    rfl

/-- Where `_H1` does not match it goes on as if no line began there. -/
theorem search_skip {text : List Char} {n : Nat} (h : ¬Candidate n text) :
    searchH1 true (text.take n) = searchH1 false (text.take n) := by
  cases htake : text.take n with
  | nil => rfl
  | cons c cs =>
    rw [searchH1, searchH1, Bool.true_and, Bool.false_and]
    split
    · rename_i hc
      obtain rfl := isMark_eq_true.mp hc
      have hgroup : h1Group cs = none := Option.not_isSome_iff_eq_none.mp fun hgroup => h ⟨cs, htake, hgroup⟩
      rw [hgroup]
      rfl
    · rfl

/-- A line where `_H1` matches begins with the mark, if it is not empty. -/
theorem Candidate.mark {line : List Char} {after : List (List Char)} {n : Nat} (hne : line ≠ [])
    (h : Candidate n (['\n'].intercalate (line :: after))) : ∃ rest, line = '#' :: rest := by
  obtain ⟨cs, htake, -⟩ := h
  obtain ⟨d, rest, rfl⟩ := List.exists_cons_of_ne_nil hne
  obtain ⟨tail, hjoin⟩ : ∃ tail, ['\n'].intercalate ((d :: rest) :: after) = d :: tail := by
    cases after <;> simp [List.intercalate_cons_cons]
  rw [hjoin] at htake
  cases n with
  | zero => cases htake
  | succ n =>
    obtain ⟨rfl, -⟩ := List.cons.inj htake
    exact ⟨rest, rfl⟩

/-- The lines before the first candidate. -/
theorem search_lines : ∀ {before after : List (List Char)} {line : List Char} {n : Nat}, (∀ l ∈ before, '\n' ∉ l) →
    (∀ pre l post, before = pre ++ l :: post →
      ¬Candidate (n - offset pre) (['\n'].intercalate (l :: (post ++ line :: after)))) →
        searchH1 true ((['\n'].intercalate (before ++ line :: after)).take n) =
          searchH1 true ((['\n'].intercalate (line :: after)).take (n - offset before))
  | [], _, _, _, _, _ => rfl
  | l :: before, after, line, n, hlines, h => by
    obtain ⟨hl, hlines⟩ := List.forall_mem_cons.mp hlines
    have hjoin : ['\n'].intercalate (l :: (before ++ line :: after)) =
        l ++ '\n' :: ['\n'].intercalate (before ++ line :: after) := by
      cases before <;> simp [List.intercalate_cons_cons]
    have hskip := search_skip (h [] l before rfl)
    rw [offset, List.map_nil, List.sum_nil, Nat.sub_zero, hjoin, search_rest hl] at hskip
    rw [List.cons_append, hjoin, hskip, search_lines hlines fun pre x post hbefore => ?_]
    · rw [offset, offset, List.map_cons, List.sum_cons, Nat.sub_sub]
    · have := h (l :: pre) x post (by rw [hbefore]; rfl)
      rwa [offset, List.map_cons, List.sum_cons, ← Nat.sub_sub] at this

/-! ### Headings that both see -/

/-- A mark in the first column, white space, and a text, without white space after marks at its end. -/
def Regular (line : List Char) : Prop :=
  ∃ sp c cs, line = '#' :: (sp ++ c :: cs) ∧ sp ≠ [] ∧ (∀ d ∈ sp, isSpace d = true) ∧ isSpace c = false ∧
    (cs.getLast?.any isSpace = true → (cs.rdropWhile isSpace).getLast?.any isMark = false)

theorem rdropWhile_append {p : Char → Bool} {ys : List Char} (h : ys.rdropWhile p ≠ []) : ∀ xs : List Char,
    (xs ++ ys).rdropWhile p = xs ++ ys.rdropWhile p
  | [] => rfl
  | x :: xs => by
    rw [List.cons_append, rdropWhile_cons, rdropWhile_append h, if_neg fun hnil => h (List.append_eq_nil_iff.mp hnil.1).2]
    rfl

theorem rdropWhile_text {c : Char} {cs : List Char} (hc : isSpace c = false) :
    (c :: cs).rdropWhile isSpace = c :: cs.rdropWhile isSpace := by
  rw [rdropWhile_cons, if_neg fun h => by rw [hc] at h; exact Bool.false_ne_true h.2]

theorem level1_line {sp cs : List Char} {c : Char} (hsp : sp ≠ []) (hspace : ∀ d ∈ sp, isSpace d = true) (hc : isSpace c = false) :
    level1 ('#' :: (sp ++ c :: cs)) = some (c :: trimMarks (cs.rdropWhile isSpace)) := by
  have hstrip : strip ('#' :: (sp ++ c :: cs)) = '#' :: (sp ++ c :: cs.rdropWhile isSpace) := by
    have hne : (c :: cs).rdropWhile isSpace ≠ [] := by rw [rdropWhile_text hc]; simp
    have happend := rdropWhile_append hne ('#' :: sp)
    rw [rdropWhile_text hc] at happend
    rw [strip, List.dropWhile_cons_of_neg (by decide)]
    exact happend
  obtain ⟨d, sp, rfl⟩ := List.exists_cons_of_ne_nil hsp
  have hd := hspace d List.mem_cons_self
  have hmark : isMark d = false := isMark_of_isSpace hd
  have hdrop : (d :: (sp ++ c :: cs.rdropWhile isSpace)).dropWhile isSpace = c :: cs.rdropWhile isSpace := by
    rw [← List.cons_append, List.dropWhile_append_of_pos hspace, List.dropWhile_cons_of_neg (by simp [hc])]
  have hheading : heading ('#' :: (d :: sp ++ c :: cs.rdropWhile isSpace)) = some (1, lazyText (c :: cs.rdropWhile isSpace)) := by
    have htake : ('#' :: (d :: sp ++ c :: cs.rdropWhile isSpace)).takeWhile isMark = ['#'] := by
      rw [List.takeWhile_cons_of_pos (by decide), List.cons_append, List.takeWhile_cons_of_neg (by simp [hmark])]
    have hrest : ('#' :: (d :: sp ++ c :: cs.rdropWhile isSpace)).dropWhile isMark = d :: (sp ++ c :: cs.rdropWhile isSpace) := by
      rw [List.dropWhile_cons_of_pos (by decide), List.cons_append, List.dropWhile_cons_of_neg (by simp [hmark])]
    rw [heading, htake, hrest, hdrop]
    simp [hd]
  rw [level1, hstrip, hheading, lazyText_cons]
  rfl

theorem rdropWhile_mark {ds : List Char} : ds.rdropWhile isMark = ds ↔ ds.getLast?.any isMark = false := by
  rw [List.rdropWhile_eq_self_iff]
  constructor
  · intro h
    by_cases hne : ds = []
    · rw [hne]
      rfl
    · rw [List.getLast?_eq_some_getLast hne, Option.any_some]
      simpa using h hne
  · intro h hne
    rw [List.getLast?_eq_some_getLast hne, Option.any_some] at h
    simp [h]

theorem trimMarks_eq_self {ds : List Char} (h : trimMarks ds = ds) : ds.getLast?.any isMark = false := by
  refine rdropWhile_mark.mp ((List.rdropWhile_prefix isMark ds).eq_of_length_le ?_)
  have hlength := (List.rdropWhile_prefix isSpace (ds.rdropWhile isMark)).length_le
  rwa [← trimMarks, h] at hlength

/-- The white space after a heading makes no difference, but for the marks that it keeps. -/
theorem strip_text_iff {c : Char} {cs : List Char} (hc : isSpace c = false) :
    strip (c :: trimMarks cs) = c :: trimMarks (cs.rdropWhile isSpace) ↔
      (cs.getLast?.any isSpace = true → (cs.rdropWhile isSpace).getLast?.any isMark = false) := by
  have hstrip : strip (c :: trimMarks cs) = c :: trimMarks cs := by
    rw [strip, List.dropWhile_cons_of_neg (by simp [hc]), rdropWhile_text hc, trimMarks, List.rdropWhile_idempotent]
  rw [hstrip, List.cons_inj_right]
  cases hlast : cs.getLast?.any isSpace with
  | false =>
    refine iff_of_true ?_ fun h => absurd h Bool.false_ne_true
    rw [List.rdropWhile_eq_self_iff.mpr fun hne => ?_]
    rw [List.getLast?_eq_some_getLast hne, Option.any_some] at hlast
    simp [hlast]
  | true =>
    have hspaces : cs.getLast?.any isMark = false := by
      cases h : cs.getLast? with
      | none => rfl
      | some d =>
        rw [h, Option.any_some] at hlast
        exact isMark_of_isSpace hlast
    have htrim : trimMarks cs = cs.rdropWhile isSpace := by rw [trimMarks, rdropWhile_mark.mpr hspaces]
    rw [htrim, forall_prop_of_true rfl]
    refine ⟨fun h => trimMarks_eq_self h.symm, fun h => ?_⟩
    -- both drop the white space at the end, and nothing else
    rw [trimMarks, rdropWhile_mark.mpr h, List.rdropWhile_idempotent]

/-- A heading of level 1 with its mark in the first column. -/
theorem line_of_level1 {rest t : List Char} (h : level1 ('#' :: rest) = some t) : ∃ sp c cs,
    '#' :: rest = '#' :: (sp ++ c :: cs) ∧ sp ≠ [] ∧ (∀ d ∈ sp, isSpace d = true) ∧ isSpace c = false := by
  obtain ⟨marks, sp, c, cs, hline, hlength, -, hmarks, hsp, hspace, hc, -⟩ := heading_some (level1_eq_some.mp h)
  obtain ⟨d, rfl⟩ := List.length_eq_one_iff.mp hlength
  obtain rfl := isMark_eq_true.mp (hmarks d List.mem_cons_self)
  obtain ⟨tail, htail, -⟩ := @dropWhile_eq_strip_append ('#' :: rest)
  rw [List.dropWhile_cons_of_neg (by decide), hline] at htail
  exact ⟨sp, c, cs ++ tail, by rw [htail]; simp, hsp, hspace, hc⟩

/-- `_H1` finds a regular line, if all of it is read. -/
theorem search_line {sp cs tail : List Char} {c : Char} {n : Nat} (hsp : sp ≠ []) (hspace : ∀ d ∈ sp, isSpace d = true)
    (hc : isSpace c = false) (hline : '\n' ∉ c :: cs) (htail : ∀ d ∈ tail.head?, d = '\n')
    (hn : ('#' :: (sp ++ c :: cs)).length ≤ n) :
    searchH1 true (('#' :: (sp ++ c :: cs) ++ tail).take n) = some (c :: trimMarks cs) := by
  obtain ⟨k, rfl⟩ := Nat.exists_eq_add_of_le hn
  have htail' : ∀ d ∈ (tail.take k).head?, d = '\n' := fun d hd => by
    cases k with
    | zero => cases hd
    | succ k =>
      cases tail with
      | nil => cases hd
      | cons e tail => exact htail d hd
  have hcs : (c :: (cs ++ tail.take k)).takeWhile (· != '\n') = c :: cs := by
    rw [← List.cons_append, List.takeWhile_append_of_pos fun d hd => by
      simpa using fun (hd' : d = '\n') => hline (hd' ▸ hd)]
    cases h : tail.take k with
    | nil => rw [List.takeWhile_nil, List.append_nil]
    | cons d ds =>
      obtain rfl := htail' d (by rw [h]; rfl)
      rw [List.takeWhile_cons_of_neg (by decide), List.append_nil]
  have hgroup : h1Group (sp ++ c :: (cs ++ tail.take k)) = some (c :: trimMarks cs) := by
    have htake : (sp ++ c :: (cs ++ tail.take k)).takeWhile isSpace = sp := by
      rw [List.takeWhile_append_of_pos hspace, List.takeWhile_cons_of_neg (by simp [hc]), List.append_nil]
    have hdrop : (sp ++ c :: (cs ++ tail.take k)).dropWhile isSpace = c :: (cs ++ tail.take k) := by
      rw [List.dropWhile_append_of_pos hspace, List.dropWhile_cons_of_neg (by simp [hc])]
    simp only [h1Group, htake, hdrop, hcs, if_neg hsp, lazyText_cons]
    exact if_pos (List.cons_ne_nil _ _)
  rw [List.take_length_add_append, List.cons_append, List.append_assoc, List.cons_append, searchH1, hgroup]
  rfl

/-! ### The document -/

/-- In the first 2000 characters, one of the parsers takes the line for a heading of level 1. -/
def Marked (before : List (List Char)) (line : List Char) (after : List (List Char)) : Prop :=
  Candidate (2000 - offset before) (['\n'].intercalate (line :: after)) ∨
    ((level1 line).isSome ∧ offset before + line.length ≤ 2000)

/-- No separator parts a heading where a prefix is built: it holds none if a text stands right under it, and neither holds
    nor begins one if a text stands under a further heading. -/
def Unparted (t : List Char) (after : List (List Char)) : Prop :=
  ∀ between q rest, pieces [] after = between ++ q :: rest → q.level = none → Clear 1 between →
    beforeSeparator (if enclosing between = [] then t else t ++ [' ', '>', ' ']) = t

/-- The first line that one of the parsers takes for a heading is one that both do, all of it is read, and no separator
    parts it. -/
def Aligned (text : String) : Prop :=
  ∀ before line after, linesOf text = before ++ line :: after → Marked before line after →
    (∀ pre l post, before = pre ++ l :: post → ¬Marked pre l (post ++ line :: after)) →
      offset before + line.length ≤ 2000 ∧ Regular line ∧ ∀ t, level1 line = some t → Unparted t after

/-- The first heading of level 1, on a line within the first 2000 characters. -/
structure FirstHeading (text : String) (before : List (List Char)) (line : List Char) (after : List (List Char))
    (t : List Char) : Prop where
  lines : linesOf text = before ++ line :: after
  within : offset before + line.length ≤ 2000
  first : ∀ l ∈ before, level1 l = none
  level : level1 line = some t

/-- The first of the marked lines, if there is any. -/
theorem first_marked {lines : List (List Char)} : ∀ {before : List (List Char)} {line : List Char} {after : List (List Char)},
    lines = before ++ line :: after → Marked before line after → ∃ pre l post, lines = pre ++ l :: post ∧ Marked pre l post ∧
      (∀ pre' l' post', pre = pre' ++ l' :: post' → ¬Marked pre' l' (post' ++ l :: post)) ∧
      (pre = before ∧ l = line ∧ post = after ∨ ∃ rest, before = pre ++ l :: rest) := by
  intro before
  induction h : before.length using Nat.strong_induction_on generalizing before with
  | _ n ih =>
    intro line after hlines hmarked
    by_cases hearlier : ∃ pre l post, before = pre ++ l :: post ∧ Marked pre l (post ++ line :: after)
    · obtain ⟨pre, l, post, rfl, hpre⟩ := hearlier
      have hlt : pre.length < n := by
        rw [← h, List.length_append, List.length_cons]
        omega
      have hlines' : lines = pre ++ l :: (post ++ line :: after) := by
        rw [hlines, List.append_assoc]
        rfl
      obtain ⟨pre', l', post', hlines', hmarked', hfirst, hwhere⟩ := ih pre.length hlt rfl hlines' hpre
      refine ⟨pre', l', post', hlines', hmarked', hfirst, .inr ?_⟩
      rcases hwhere with ⟨rfl, rfl, -⟩ | ⟨rest, rfl⟩
      · exact ⟨post, rfl⟩
      · exact ⟨rest ++ l :: post, by rw [List.append_assoc]; rfl⟩
    · refine ⟨before, line, after, hlines, hmarked, fun pre l post hbefore hpre => ?_, .inl ⟨rfl, rfl, rfl⟩⟩
      exact hearlier ⟨pre, l, post, hbefore, hpre⟩

theorem toList_eq_lines (text : String) : text.toList = ['\n'].intercalate (linesOf text) :=
  (List.intercalate_splitOn '\n').symm

theorem lines_oneLine {text : String} : ∀ line ∈ linesOf text, '\n' ∉ line := fun line hline hnewline => by
  rw [linesOf, List.splitOn_eq_splitOnP] at hline
  exact absurd (mem_splitOnP hline _ hnewline) (by decide)

section
variable {text stem : String} {before after : List (List Char)} {line : List Char}

/-- The title is what `_H1` finds on the first line where it matches, if it reads all of the line. -/
theorem inferTitle_at {sp cs : List Char} {c : Char} (hlines : linesOf text = before ++ ('#' :: (sp ++ c :: cs)) :: after)
    (hwithin : offset before + ('#' :: (sp ++ c :: cs)).length ≤ 2000) (hsp : sp ≠ []) (hspace : ∀ d ∈ sp, isSpace d = true)
    (hc : isSpace c = false) (hfirst : ∀ pre l post, before = pre ++ l :: post →
      ¬Candidate (2000 - offset pre) (['\n'].intercalate (l :: (post ++ ('#' :: (sp ++ c :: cs)) :: after)))) :
    inferTitle text stem = .ofList (strip (c :: trimMarks cs)) := by
  have hno : ∀ l ∈ linesOf text, '\n' ∉ l := lines_oneLine
  rw [hlines] at hno
  have hline := hno _ (List.mem_append_right _ List.mem_cons_self)
  have hskip := search_lines (fun l hl => hno l (List.mem_append_left _ hl)) hfirst
  obtain ⟨tail, htail, hjoin⟩ : ∃ tail : List Char, (∀ d ∈ tail.head?, d = '\n') ∧
      ['\n'].intercalate (('#' :: (sp ++ c :: cs)) :: after) = '#' :: (sp ++ c :: cs) ++ tail := by
    cases after with
    | nil => exact ⟨[], nofun, by rw [List.intercalate_singleton, List.append_nil]⟩
    | cons l after =>
      refine ⟨'\n' :: ['\n'].intercalate (l :: after), ?_, ?_⟩
      · rintro d ⟨⟩
        rfl
      · rw [List.intercalate_cons_cons, List.append_assoc]
        rfl
  have hfound := @search_line sp cs tail c (2000 - offset before) hsp hspace hc
    (fun h => hline (List.mem_cons_of_mem _ (List.mem_append_right _ h))) htail (by omega)
  rw [hjoin, hfound, ← hlines, ← toList_eq_lines] at hskip
  rw [inferTitle, hskip]

theorem first_of_unmarked {t : List Char} (hlines : linesOf text = before ++ line :: after)
    (hfirst : ∀ pre l post, before = pre ++ l :: post → ¬Marked pre l (post ++ line :: after))
    (hwithin : offset before + line.length ≤ 2000) (hlevel : level1 line = some t) : FirstHeading text before line after t := by
  refine ⟨hlines, hwithin, fun l hl => ?_, hlevel⟩
  obtain ⟨pre, post, rfl⟩ := List.append_of_mem hl
  have hunmarked := not_or.mp (hfirst pre l post rfl)
  refine Option.not_isSome_iff_eq_none.mp fun hsome => hunmarked.2 ⟨hsome, ?_⟩
  rw [offset, List.map_append, List.sum_append, List.map_cons, List.sum_cons] at hwithin
  rw [offset]
  omega

/-- The title is the text of the first marked line, which is a heading. -/
theorem inferTitle_first (haligned : Aligned text) (hlines : linesOf text = before ++ line :: after)
    (hmarked : Marked before line after)
    (hfirst : ∀ pre l post, before = pre ++ l :: post → ¬Marked pre l (post ++ line :: after)) :
    ∃ t, FirstHeading text before line after t ∧ inferTitle text stem = .ofList t := by
  obtain ⟨hwithin, ⟨sp, c, cs, rfl, hsp, hspace, hc, hend⟩, -⟩ := haligned before line after hlines hmarked hfirst
  refine ⟨_, first_of_unmarked hlines hfirst hwithin (level1_line hsp hspace hc), ?_⟩
  have htitle := @inferTitle_at text stem _ _ _ _ _ hlines hwithin hsp hspace hc fun pre l post hpre hcandidate =>
    hfirst pre l post hpre (.inl hcandidate)
  rw [htitle, (strip_text_iff hc).mpr hend]

end

/-- Without a marked line there is no title in the text. -/
theorem inferTitle_none {text stem : String}
    (h : ∀ before line after, linesOf text = before ++ line :: after → ¬Marked before line after) :
    inferTitle text stem = fallbackTitle stem := by
  have hne : linesOf text ≠ [] := List.splitOn_ne_nil _ _
  obtain ⟨before, line, hlines⟩ := (List.eq_nil_or_concat (linesOf text)).resolve_left hne
  rw [List.concat_eq_append] at hlines
  have hno : ∀ l ∈ before ++ [line], '\n' ∉ l := fun l hl => lines_oneLine l (hlines ▸ hl)
  have hsearch := @search_lines before [] line 2000 (fun l hl => hno l (List.mem_append_left _ hl)) fun pre l post hbefore hcandidate => by
    refine h pre l (post ++ [line]) ?_ (.inl hcandidate)
    rw [hlines, hbefore, List.append_assoc]
    rfl
  have hlast := search_skip fun hcandidate => h before line [] hlines (.inl hcandidate)
  rw [List.intercalate_singleton, search_last (hno line (by simp))] at hlast
  rw [List.intercalate_singleton, hlast, ← hlines, ← toList_eq_lines] at hsearch
  rw [inferTitle, hsearch]

/-! ### The path under the title -/

/-- `" > "` begins here. -/
def Separated (cs : List Char) : Prop := ∃ rest, cs = ' ' :: '>' :: ' ' :: rest

theorem beforeSeparator_cons {c : Char} {cs : List Char} (h : ¬Separated (c :: cs)) :
    beforeSeparator (c :: cs) = c :: beforeSeparator cs := by
  rw [beforeSeparator.eq_def]
  split
  · rename_i rest heq
    exact absurd ⟨rest, heq⟩ h
  · rename_i heq
    obtain ⟨rfl, rfl⟩ := List.cons.inj heq
    rfl
  · rename_i heq
    cases heq

theorem separated_append {c : Char} {xs ys : List Char} (h : Separated (c :: (xs ++ ' ' :: '>' :: ' ' :: ys))) :
    Separated (c :: (xs ++ [' ', '>', ' '])) := by
  obtain ⟨rest, hrest⟩ := h
  obtain ⟨rfl, htail⟩ := List.cons.inj hrest
  match xs, htail with
  | [], htail => exact absurd (List.cons.inj htail).1 (by decide)
  | [d], htail =>
    obtain ⟨rfl, -⟩ := List.cons.inj htail
    exact ⟨['>', ' '], rfl⟩
  | d :: e :: xs, htail =>
    obtain ⟨rfl, hnext⟩ := List.cons.inj htail
    obtain ⟨rfl, -⟩ := List.cons.inj hnext
    exact ⟨_, rfl⟩

theorem separated_weaken {cs ys : List Char} (h : Separated cs) : Separated (cs ++ ys) := by
  obtain ⟨rest, rfl⟩ := h
  exact ⟨rest ++ ys, rfl⟩

/-- A text that is cut at its end when a separator follows is cut there whatever comes after. -/
theorem beforeSeparator_append {ys : List Char} : ∀ {xs : List Char},
    beforeSeparator (xs ++ ' ' :: '>' :: ' ' :: ys) = xs ↔ beforeSeparator (xs ++ [' ', '>', ' ']) = xs
  | [] => iff_of_true rfl rfl
  | c :: xs => by
    by_cases hsep : Separated (c :: (xs ++ [' ', '>', ' ']))
    · have hsep' : Separated (c :: (xs ++ ' ' :: '>' :: ' ' :: ys)) := by
        have := @separated_weaken _ ys hsep
        rwa [List.cons_append, List.append_assoc] at this
      obtain ⟨rest, hrest⟩ := hsep
      obtain ⟨rest', hrest'⟩ := hsep'
      rw [List.cons_append, List.cons_append, hrest, hrest']
      exact Iff.rfl
    · rw [List.cons_append, List.cons_append, beforeSeparator_cons hsep, beforeSeparator_cons (mt separated_append hsep),
        List.cons_inj_right, List.cons_inj_right, beforeSeparator_append]

theorem beforeSeparator_self : ∀ {xs : List Char}, beforeSeparator (xs ++ [' ', '>', ' ']) = xs → beforeSeparator xs = xs
  | [], _ => rfl
  | c :: xs, h => by
    have hcut : ¬Separated (c :: (xs ++ [' ', '>', ' '])) := by
      rintro ⟨rest, hrest⟩
      rw [List.cons_append, hrest] at h
      cases h
    rw [List.cons_append, beforeSeparator_cons hcut] at h
    rw [beforeSeparator_cons fun hsep => hcut (@separated_weaken (c :: xs) _ hsep),
      beforeSeparator_self (List.cons.inj h).2]

/-- A heading without a separator is not parted, whatever stands under it. -/
theorem unparted_of_plain {t : List Char} (h : beforeSeparator (t ++ [' ', '>', ' ']) = t) (after : List (List Char)) :
    Unparted t after := by
  intro between q rest _ _ _
  split
  · exact beforeSeparator_self h
  · exact h

/-- `_context_prefix` leaves the title out when it is the first part of the path, and only then. -/
theorem contextPrefix_eq_iff {t path : String} (ht : t ≠ "") (hpath : path ≠ "") :
    contextPrefix (some t) (some path) = path ↔ beforeSeparator path.toList = t.toList := by
  have hsome : ∀ x : String, x ≠ "" → (some x).filter (fun x => x ≠ "") = some x := fun x hx => by simp [hx]
  simp only [contextPrefix, hsome t ht, hsome path hpath, Option.map_some]
  by_cases hcut : beforeSeparator path.toList = t.toList
  · simp [hcut]
  · simp [hcut]

theorem prefix_once_iff {t : String} {texts : List String} (ht : t ≠ "") :
    contextPrefix (some t) (some (" > ".intercalate (t :: texts))) = " > ".intercalate (t :: texts) ↔
      beforeSeparator (if texts = [] then t.toList else t.toList ++ [' ', '>', ' ']) = t.toList := by
  rw [contextPrefix_eq_iff ht (intercalate_ne_empty ht), String.toList_intercalate]
  cases texts with
  | nil =>
    rw [List.map_singleton, List.intercalate_singleton]
    exact Iff.rfl
  | cons x texts =>
    rw [List.map_cons, List.map_cons, List.intercalate_cons_cons, List.append_assoc]
    exact beforeSeparator_append

theorem enclosing_under {p : Piece} (hp : p.level = some 1) {ps : List Piece} : ∀ {pre : List Piece},
    (∀ x ∈ pre, ∀ level ∈ x.level, 0 < level) → enclosing (pre ++ p :: ps) = enclosing (p :: ps)
  | [], _ => rfl
  | x :: pre, h => by
    obtain ⟨hx, hpre⟩ := List.forall_mem_cons.mp h
    rw [List.cons_append, enclosing, enclosing_under hp hpre]
    split
    · rename_i level hlevel
      refine if_neg fun hclear => ?_
      have hlt := hclear p (List.mem_append_right _ List.mem_cons_self) 1 hp
      have := hx level hlevel
      omega
    · rfl

/-- A heading ends the paragraph before it, as the end of the text does. -/
theorem pieces_append {line text : List Char} {level : Nat} (hheading : heading (strip line) = some (level, text))
    {after : List (List Char)} : ∀ {before : List (List Char)} {paragraph : List String}, pieces paragraph (before ++ line :: after) =
      pieces paragraph before ++ { text := .ofList text, level := some level } :: pieces [] after
  | [], paragraph => by
    rw [List.nil_append]
    conv_lhs => rw [pieces, hheading]
    rfl
  | rawLine :: before, paragraph => by
    rw [List.cons_append, pieces, pieces]
    cases heading (strip rawLine) with
    | some x => simp only [pieces_append hheading, List.append_assoc, List.cons_append]
    | none =>
      by_cases hblank : strip rawLine = []
      · simp only [if_pos hblank, pieces_append hheading, List.append_assoc]
      · by_cases hitem : standalone (strip rawLine) = true
        · simp only [if_neg hblank, if_pos hitem, pieces_append hheading, List.append_assoc, List.cons_append]
        · simp only [if_neg hblank, if_neg hitem, pieces_append hheading]

/-- Two splits of a list at its first element of a kind are one. -/
theorem split_first {α : Type} {P : α → Prop} {x y : α} {xs ys xs' ys' : List α} (h : xs ++ x :: xs' = ys ++ y :: ys')
    (hxs : ∀ z ∈ xs, ¬P z) (hys : ∀ z ∈ ys, ¬P z) (hx : P x) (hy : P y) : xs = ys ∧ x = y ∧ xs' = ys' := by
  rcases List.append_eq_append_iff.mp h with ⟨zs, rfl, htail⟩ | ⟨zs, rfl, htail⟩
  · cases zs with
    | nil =>
      obtain ⟨rfl, rfl⟩ := List.cons.inj htail
      exact ⟨(List.append_nil xs).symm, rfl, rfl⟩
    | cons z zs =>
      obtain ⟨rfl, -⟩ := List.cons.inj htail
      exact absurd hx (hys x (List.mem_append_right _ List.mem_cons_self))
  · cases zs with
    | nil =>
      obtain ⟨rfl, rfl⟩ := List.cons.inj htail
      exact ⟨List.append_nil ys, rfl, rfl⟩
    | cons z zs =>
      obtain ⟨rfl, -⟩ := List.cons.inj htail
      exact absurd hy (hxs y (List.mem_append_right _ List.mem_cons_self))

/-! ### Agreement -/

/-- The two parsers agree on the first heading of level 1, and the prefix of a chunk under it, whose first unit is a text
    under it, does not repeat the title. -/
structure ParsersAgree (text stem : String) : Prop where
  found : ∀ before line after t, FirstHeading text before line after t → inferTitle text stem = .ofList t
  parsed : inferTitle text stem ≠ fallbackTitle stem →
    ∃ p ∈ pieces [] (linesOf text), p.level = some 1 ∧ p.text = inferTitle text stem
  once : ∀ before line after t, FirstHeading text before line after t → ∀ pre p between q rest,
    pieces [] (linesOf text) = pre ++ p :: (between ++ q :: rest) → p.level = some 1 → (∀ x ∈ pre, x.level ≠ some 1) →
      q.level = none → Clear 1 between → ∀ path, pathOf (enclosing (pre ++ p :: (between ++ [q]))) = some path →
        contextPrefix (some (inferTitle text stem)) (some path) = path

section
variable {text stem : String} {before after : List (List Char)} {line t : List Char}

/-- The path of a text under a heading of level 1 begins with the heading. -/
theorem path_under (before : List (List Char)) {between : List Piece} {q : Piece} (hq : q.level = none)
    (hclear : Clear 1 between) :
    pathOf (enclosing (pieces [] before ++ { text := .ofList t, level := some 1 } :: (between ++ [q]))) =
      some (" > ".intercalate (.ofList t :: (enclosing between).map Prod.snd)) := by
  have hpositive : ∀ x ∈ pieces [] before, ∀ level ∈ x.level, 0 < level := fun x hx level hlevel => by
    obtain ⟨_, -, _, hheading, -⟩ := heading_of_piece hlevel hx
    obtain ⟨marks, sp, c, cs, -, hlength, hmarks, -⟩ := heading_some hheading
    rw [← hlength]
    exact List.length_pos_iff.mpr hmarks
  have hclear' : Clear 1 (between ++ [q]) := clear_append.mpr ⟨hclear, by simp [Clear, hq]⟩
  rw [enclosing_under rfl hpositive, enclosing]
  simp only [if_pos hclear', enclosing_plain hq]
  rfl

namespace FirstHeading

theorem heading (h : FirstHeading text before line after t) : heading (strip line) = some (1, t) := level1_eq_some.mp h.level

theorem marked (h : FirstHeading text before line after t) : Marked before line after :=
  .inr ⟨by rw [h.level]; rfl, h.within⟩

theorem pieces_eq (h : FirstHeading text before line after t) : pieces [] (linesOf text) =
    pieces [] before ++ { text := .ofList t, level := some 1 } :: pieces [] after := by rw [h.lines, pieces_append h.heading]

/-- No piece before the heading has level 1. -/
theorem piece_first (h : FirstHeading text before line after t) : ∀ p ∈ pieces [] before, p.level ≠ some 1 := by
  intro p hp hlevel
  obtain ⟨l, hl, text, hheading, -⟩ := heading_of_piece hlevel hp
  have hfirst := h.first l hl
  rw [level1, hheading] at hfirst
  cases hfirst

/-- The prefixes under the heading do not repeat it just when no separator parts it. -/
theorem unparted_iff (h : FirstHeading text before line after t) (htitle : inferTitle text stem = .ofList t) :
    Unparted t after ↔ ∀ pre p between q rest, pieces [] (linesOf text) = pre ++ p :: (between ++ q :: rest) →
      p.level = some 1 → (∀ x ∈ pre, x.level ≠ some 1) → q.level = none → Clear 1 between →
        ∀ path, pathOf (enclosing (pre ++ p :: (between ++ [q]))) = some path →
          contextPrefix (some (inferTitle text stem)) (some path) = path := by
  have hcontext : ∀ between : List Piece, contextPrefix (some (.ofList t))
      (some (" > ".intercalate (.ofList t :: (enclosing between).map Prod.snd))) =
        " > ".intercalate (.ofList t :: (enclosing between).map Prod.snd) ↔
          beforeSeparator (if enclosing between = [] then t else t ++ [' ', '>', ' ']) = t := fun between => by
    rw [prefix_once_iff (heading_ne_empty h.heading), String.toList_ofList]
    simp only [List.map_eq_nil_iff]
  rw [htitle]
  constructor
  · intro hun pre p between q rest hpieces hlevel hpre hq hclear path hpath
    obtain ⟨rfl, rfl, hrest⟩ := split_first (h.pieces_eq.symm.trans hpieces) h.piece_first hpre rfl hlevel
    rw [path_under before hq hclear] at hpath
    obtain rfl := Option.some.inj hpath
    exact (hcontext between).mpr (hun between q rest hrest hq hclear)
  · intro honce between q rest hafter hq hclear
    refine (hcontext between).mp (honce _ _ between q rest ?_ rfl h.piece_first hq hclear _ (path_under before hq hclear))
    rw [h.pieces_eq, hafter]

/-- With a text that is aligned, the heading is the first marked line. -/
theorem inferTitle (haligned : Aligned text) (h : FirstHeading text before line after t) :
    inferTitle text stem = .ofList t ∧ Unparted t after := by
  obtain ⟨pre, l, post, hlines, hmarked, hfirst, hwhere⟩ := first_marked h.lines h.marked
  obtain ⟨t', hheading, htitle⟩ := @inferTitle_first text stem pre post l haligned hlines hmarked hfirst
  have hsame : pre = before ∧ l = line ∧ post = after := by
    refine hwhere.resolve_right fun ⟨rest, hbefore⟩ => ?_
    have hnone := h.first l (by rw [hbefore]; exact List.mem_append_right _ List.mem_cons_self)
    rw [hheading.level] at hnone
    cases hnone
  obtain ⟨rfl, rfl, rfl⟩ := hsame
  obtain rfl : t = t' := Option.some.inj (h.level.symm.trans hheading.level)
  exact ⟨htitle, (haligned _ _ _ hlines hmarked hfirst).2.2 t h.level⟩

end FirstHeading
end

theorem agree_of_aligned {text stem : String} (haligned : Aligned text) : ParsersAgree text stem := by
  refine ⟨fun _ _ _ _ h => (h.inferTitle haligned).1, fun hparsed => ?_, fun before line after t h => ?_⟩
  · have hsome : ∃ before line after, linesOf text = before ++ line :: after ∧ Marked before line after := by
      by_contra hnone
      exact hparsed (inferTitle_none fun before line after hlines hmarked => hnone ⟨before, line, after, hlines, hmarked⟩)
    obtain ⟨before, line, after, hlines, hmarked⟩ := hsome
    obtain ⟨pre, l, post, hlines', hmarked', hfirst, -⟩ := first_marked hlines hmarked
    obtain ⟨t, hheading, htitle⟩ := @inferTitle_first text stem pre post l haligned hlines' hmarked' hfirst
    refine ⟨{ text := .ofList t, level := some 1 }, ?_, rfl, htitle.symm⟩
    rw [hheading.pieces_eq]
    exact List.mem_append_right _ List.mem_cons_self
  · obtain ⟨htitle, hunparted⟩ := @FirstHeading.inferTitle text stem before after line t haligned h
    exact (h.unparted_iff htitle).mp hunparted

/-- No text is by chance that of a heading: where the title is the text of a heading of level 1, `_H1` matches first at
    the line of that heading and reads all of it, and what `_H1` finds is not what the name of the file gives. -/
structure Distinct (text stem : String) : Prop where
  heading : ∀ before line after t, linesOf text = before ++ line :: after → level1 line = some t →
    inferTitle text stem = .ofList t → offset before + line.length ≤ 2000 ∧
      Candidate (2000 - offset before) (['\n'].intercalate (line :: after)) ∧ ∀ pre l post, before = pre ++ l :: post →
        ¬Candidate (2000 - offset pre) (['\n'].intercalate (l :: (post ++ line :: after)))
  stem : ∀ before line after, linesOf text = before ++ line :: after →
    Candidate (2000 - offset before) (['\n'].intercalate (line :: after)) → inferTitle text stem ≠ fallbackTitle stem

/-- The first marked line is a heading that `_H1` finds. -/
theorem ParsersAgree.first {text stem : String} {before after : List (List Char)} {line : List Char}
    (h : ParsersAgree text stem) (hdistinct : Distinct text stem) (hlines : linesOf text = before ++ line :: after)
    (hmarked : Marked before line after)
    (hfirst : ∀ pre l post, before = pre ++ l :: post → ¬Marked pre l (post ++ line :: after)) :
    Candidate (2000 - offset before) (['\n'].intercalate (line :: after)) ∧ ∃ t, FirstHeading text before line after t := by
  by_cases hlevel : (level1 line).isSome ∧ offset before + line.length ≤ 2000
  · obtain ⟨hsome, hwithin⟩ := hlevel
    obtain ⟨t, ht⟩ := Option.isSome_iff_exists.mp hsome
    have hheading := first_of_unmarked hlines hfirst hwithin ht
    exact ⟨(hdistinct.heading _ _ _ t hlines ht (h.found _ _ _ t hheading)).2.1, t, hheading⟩
  · -- `_H1` alone takes the line, so that the title is of no heading
    have hcandidate := hmarked.resolve_right hlevel
    obtain ⟨p, hp, hlevel', htext⟩ := h.parsed (hdistinct.stem _ _ _ hlines hcandidate)
    obtain ⟨line', hline', t, hheading, htitle⟩ := heading_of_piece hlevel' hp
    obtain ⟨before', after', hlines'⟩ := List.append_of_mem hline'
    obtain ⟨hwithin', hcandidate', hfirst'⟩ := hdistinct.heading _ _ _ t hlines' (level1_eq_some.mpr hheading)
      (htext.symm.trans htitle)
    rcases List.append_eq_append_iff.mp (hlines.symm.trans hlines') with ⟨zs, rfl, htail⟩ | ⟨zs, rfl, htail⟩
    · cases zs with
      | nil =>
        obtain ⟨rfl, rfl⟩ := List.cons.inj htail
        rw [List.append_nil] at hwithin'
        exact absurd ⟨by rw [level1_eq_some.mpr hheading]; rfl, hwithin'⟩ hlevel
      | cons z zs =>
        obtain ⟨rfl, rfl⟩ := List.cons.inj htail
        exact absurd hcandidate (hfirst' before line zs rfl)
    · cases zs with
      | nil =>
        obtain ⟨rfl, rfl⟩ := List.cons.inj htail
        rw [List.append_nil] at hlevel
        exact absurd ⟨by rw [level1_eq_some.mpr hheading]; rfl, hwithin'⟩ hlevel
      | cons z zs =>
        obtain ⟨rfl, rfl⟩ := List.cons.inj htail
        exact absurd (.inl hcandidate') (hfirst before' line' zs rfl)

/-- The condition is needed, chance apart. -/
theorem aligned_of_agree {text stem : String} (h : ParsersAgree text stem) (hdistinct : Distinct text stem) :
    Aligned text := by
  intro before line after hlines hmarked hfirst
  obtain ⟨hcandidate, t, hheading⟩ := h.first hdistinct hlines hmarked hfirst
  obtain ⟨rest, rfl⟩ := hcandidate.mark fun hnil => by rw [hnil] at hheading; cases hheading.level
  obtain ⟨sp, c, cs, heq, hsp, hspace, hc⟩ := line_of_level1 hheading.level
  rw [heq] at hlines hfirst hheading ⊢
  have htitle := h.found _ _ _ t hheading
  have hat := @inferTitle_at text stem _ _ _ _ _ hlines hheading.within hsp hspace hc fun pre l post hpre hcandidate =>
    hfirst pre l post hpre (.inl hcandidate)
  have htext : t = c :: trimMarks (cs.rdropWhile isSpace) :=
    Option.some.inj (hheading.level.symm.trans (level1_line hsp hspace hc))
  have hstrip := String.ofList_inj.mp (hat.symm.trans htitle)
  rw [htext] at hstrip
  have hend := (strip_text_iff hc).mp hstrip
  refine ⟨hheading.within, ⟨sp, c, cs, rfl, hsp, hspace, hc, hend⟩, fun t' ht' => ?_⟩
  obtain rfl := Option.some.inj (hheading.level.symm.trans ht')
  exact (hheading.unparted_iff htitle).mpr (h.once _ _ _ t hheading)

/-- The parsers agree on every text that is aligned and, chance apart, on no other. -/
theorem parsersAgree (text stem : String) :
    (Aligned text → ParsersAgree text stem) ∧ (Distinct text stem → ParsersAgree text stem → Aligned text) :=
  ⟨agree_of_aligned, fun hdistinct h => aligned_of_agree h hdistinct⟩

theorem aligned_of_head {text : String} {line : List Char} {after : List (List Char)} (hlines : linesOf text = line :: after)
    (hlevel : (level1 line).isSome) (hwithin : line.length ≤ 2000) (hregular : Regular line)
    (hunparted : ∀ t, level1 line = some t → Unparted t after) : Aligned text := by
  have hoffset : offset [] + line.length ≤ 2000 := (Nat.zero_add _).symm ▸ hwithin
  intro before l rest h _ hfirst
  cases before with
  | nil =>
    obtain ⟨rfl, rfl⟩ := List.cons.inj (hlines.symm.trans h)
    exact ⟨hoffset, hregular, hunparted⟩
  | cons x before =>
    obtain ⟨rfl, rfl⟩ := List.cons.inj (hlines.symm.trans h)
    exact absurd (.inr ⟨hlevel, hoffset⟩) (hfirst [] line before rfl)

-- a separator parts nothing where no text stands under the heading
example : Aligned "# A > B" := by
  have hlines : linesOf "# A > B" = ["# A > B".toList] := by decide
  have hspace : ∀ d ∈ [' '], isSpace d = true := List.forall_mem_singleton.mpr (by decide)
  refine aligned_of_head hlines (by decide) (by decide) ⟨[' '], 'A', " > B".toList, rfl, by decide, hspace, by decide, by decide⟩
    fun t _ between q rest hpieces => ?_
  have hnone : pieces [] [] = [] := rfl
  rw [hnone] at hpieces
  exact absurd hpieces (by simp)

-- a mark with nothing after it is a heading for neither
example : Aligned "Intro\n#\n" := by
  have hlines : linesOf "Intro\n#\n" = ["Intro".toList, ['#'], []] := by decide
  intro before line after h hmarked
  refine absurd hmarked ?_
  rw [hlines] at h
  unfold Marked
  rcases before with _ | ⟨x, _ | ⟨y, _ | ⟨z, before⟩⟩⟩ <;> simp at h
  · obtain ⟨rfl, rfl⟩ := h
    decide
  · obtain ⟨rfl, rfl, rfl⟩ := h
    decide
  · obtain ⟨rfl, rfl, rfl, rfl⟩ := h
    decide

namespace IndentedHeading

/-- An indented heading is none for `infer_title`. -/
theorem not_parsersAgree : ¬ParsersAgree " # Guide\nIntro." "notes" := by
  intro h
  have hfirst : FirstHeading " # Guide\nIntro." [] " # Guide".toList ["Intro.".toList] "Guide".toList :=
    ⟨by decide, by decide, nofun, by decide⟩
  exact absurd (h.found _ _ _ _ hfirst) (by decide)

/-- A document with two headings. -/
def guide : String := "# Guide\nIntro.\n## Setup\nRun it."

theorem lines_guide : linesOf guide = "# Guide".toList :: ["Intro.".toList, "## Setup".toList, "Run it.".toList] := by decide

theorem aligned_guide : Aligned guide := by
  have htext : level1 "# Guide".toList = some "Guide".toList := by decide
  have hspace : ∀ d ∈ [' '], isSpace d = true := List.forall_mem_singleton.mpr (by decide)
  refine aligned_of_head lines_guide (by decide) (by decide)
    ⟨[' '], 'G', "uide".toList, rfl, by decide, hspace, by decide, by decide⟩ fun t ht => ?_
  obtain rfl := Option.some.inj (htext.symm.trans ht)
  exact unparted_of_plain (by decide) _

theorem distinct_guide : Distinct guide "notes" where
  heading before line after t h hlevel _ := by
    have hsome : (level1 line).isSome = true := by rw [hlevel]; rfl
    rw [lines_guide] at h
    rcases before with _ | ⟨x, _ | ⟨y, _ | ⟨z, _ | ⟨u, before⟩⟩⟩⟩ <;> simp at h
    · obtain ⟨rfl, rfl⟩ := h
      exact ⟨by decide, by decide, by simp⟩
    · obtain ⟨rfl, rfl, rfl⟩ := h
      exact absurd hsome (by decide)
    · obtain ⟨rfl, rfl, rfl, rfl⟩ := h
      exact absurd hsome (by decide)
    · obtain ⟨rfl, rfl, rfl, rfl, rfl⟩ := h
      exact absurd hsome (by decide)
  stem _ _ _ _ _ := by decide

/-- The title is that of the heading, and no prefix repeats it; nothing is so by chance. -/
theorem parsersAgree_guide : ParsersAgree guide "notes" ∧ Distinct guide "notes" :=
  ⟨(parsersAgree guide "notes").1 aligned_guide, distinct_guide⟩

end IndentedHeading
end NexusGate.Rag
