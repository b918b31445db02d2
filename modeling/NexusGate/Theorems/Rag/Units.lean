import NexusGate.Text.Lines
import NexusGate.Theorems.Rag.Windows

/-! # What `_split_units` keeps of a text

The words of the units are the words of the lines, but for the markers of the headings. The pattern of a heading also
takes the marks at the end of a last word for a closing marker. -/

namespace NexusGate.Rag
open Text

/-! ### Sentences -/

theorem words_ofList {cs : List Char} : words (.ofList cs) = (tokens cs).map .ofList := by
  rw [words_eq, String.toList_ofList]

theorem tokens_splitSentences : ∀ {cs piece : List Char} {skip : Bool}, (skip = true → piece = []) →
    (splitSentences skip piece cs).flatMap tokens = tokens (piece.reverse ++ cs)
  | [], piece, _, _ => by rw [splitSentences, List.flatMap_singleton, List.append_nil]
  | c :: cs, piece, skip, hpiece => by
    rw [splitSentences]
    split
    · rename_i hskip
      obtain ⟨hskip, hc⟩ := Bool.and_eq_true_iff.mp hskip
      obtain rfl := hpiece hskip
      rw [tokens_splitSentences fun _ => rfl, List.reverse_nil, List.nil_append, List.nil_append, tokens_cons_space _ hc]
    · split
      · rename_i hend
        have hc := (Bool.and_eq_true_iff.mp (Bool.and_eq_true_iff.mp hend).1).1
        rw [List.flatMap_cons, tokens_splitSentences fun _ => rfl, tokens_append_cons _ _ hc, List.reverse_nil, List.nil_append]
      · rw [tokens_splitSentences fun h => absurd h Bool.false_ne_true, List.reverse_cons, List.append_assoc,
          List.singleton_append]

theorem flatMap_tokens_filter : ∀ {pieces : List (List Char)},
    (pieces.filter fun s => !s.isEmpty).flatMap tokens = pieces.flatMap tokens
  | [] => rfl
  | [] :: pieces => @flatMap_tokens_filter pieces
  | (c :: cs) :: pieces => by
    rw [List.filter_cons_of_pos rfl, List.flatMap_cons, List.flatMap_cons, flatMap_tokens_filter]

/-- The sentences of a paragraph have the words of its lines. -/
theorem words_sentences (lines : List String) : (sentences lines).flatMap words = lines.flatMap words := by
  have hjoin : tokens (" ".intercalate lines).toList = (lines.map String.toList).flatMap tokens := by
    rw [String.toList_intercalate]
    exact tokens_intercalate (by decide) _
  have hpieces : ((splitSentences false [] (" ".intercalate lines).toList).map strip).flatMap tokens =
      (lines.map String.toList).flatMap tokens := by
    rw [List.flatMap_map, ← hjoin]
    exact (List.flatMap_congr fun _ _ => tokens_strip).trans (tokens_splitSentences nofun)
  have hwords := congrArg (List.map String.ofList) (flatMap_tokens_filter.trans hpieces)
  rw [sentences, List.flatMap_map]
  simp only [words_ofList]
  rw [← List.map_flatMap, hwords, List.map_flatMap, List.flatMap_map]
  rfl

/-! ### Headings -/

theorem rdropWhile_cons {p : Char → Bool} (c : Char) (cs : List Char) :
    (c :: cs).rdropWhile p = if cs.rdropWhile p = [] ∧ p c = true then [] else c :: cs.rdropWhile p := by
  induction cs using List.reverseRecOn with
  | nil => by_cases hc : p c <;> simp [List.rdropWhile, hc]
  | append_singleton cs d ih =>
    rw [← List.cons_append, List.rdropWhile_concat, List.rdropWhile_concat]
    by_cases hd : p d
    · rw [if_pos hd, if_pos hd, ih]
    · rw [if_neg hd, if_neg hd, if_neg (by simp), List.cons_append]

/-- A text without closing marks and the white space before them. -/
def trimMarks (cs : List Char) : List Char := (cs.rdropWhile isMark).rdropWhile isSpace

theorem isMark_eq_true {c : Char} : isMark c = true ↔ c = '#' := beq_iff_eq

theorem isMark_of_isSpace {c : Char} (hc : isSpace c = true) : isMark c = false :=
  Bool.eq_false_iff.mpr fun hmark => by rw [isMark_eq_true.mp hmark] at hc; exact absurd hc (by decide)

theorem closes_iff : ∀ {cs : List Char}, closes cs = true ↔ trimMarks cs = []
  | [] => by simp [closes, trimMarks]
  | c :: cs => by
    have ih : closes cs = true ↔ trimMarks cs = [] := closes_iff
    by_cases hc : isSpace c = true
    · have hcloses : closes (c :: cs) = closes cs := by rw [closes, List.dropWhile_cons_of_pos hc, closes]
      rw [hcloses, ih, trimMarks, trimMarks, rdropWhile_cons, isMark_of_isSpace hc, if_neg (by simp), rdropWhile_cons]
      split <;> simp_all
    · have hcloses : closes (c :: cs) = (c :: cs).all isMark := by rw [closes, List.dropWhile_cons_of_neg hc]
      rw [hcloses, trimMarks, rdropWhile_cons, List.all_cons, Bool.and_eq_true_iff]
      have hall : cs.all isMark = true ↔ cs.rdropWhile isMark = [] := by
        rw [List.rdropWhile_eq_nil_iff, List.all_eq_true]
      rw [hall]
      split
      · rename_i hnil
        simp [hnil]
      · rename_i hne
        rw [rdropWhile_cons, if_neg fun h => hc h.2]
        simpa [and_comm] using hne

theorem trimMarks_cons {c : Char} {cs : List Char} (h : trimMarks (c :: cs) ≠ []) :
    trimMarks (c :: cs) = c :: trimMarks cs := by
  have hcons := rdropWhile_cons (p := isMark) c cs
  split at hcons
  · rw [trimMarks, hcons] at h
    exact absurd rfl h
  · have hspaces := rdropWhile_cons (p := isSpace) c (cs.rdropWhile isMark)
    rw [← hcons] at hspaces
    split at hspaces
    · exact absurd hspaces h
    · exact hspaces

/-- The text of a heading. -/
theorem lazyText_cons (c : Char) (cs : List Char) : lazyText (c :: cs) = c :: trimMarks cs := by
  induction cs generalizing c with
  | nil => rfl
  | cons d cs ih =>
    rw [lazyText]
    congr 1
    split
    · rename_i hcloses
      exact (closes_iff.mp hcloses).symm
    · rename_i hcloses
      rw [ih, trimMarks_cons (mt closes_iff.mpr hcloses)]

/-! ### The words of a heading -/

theorem tokens_append_word (xs : List Char) {m : List Char} (hm : m ≠ []) (hword : ∀ c ∈ m, isSpace c = false) :
    tokens (xs ++ m) = tokens (xs.rdropWhile fun c => !isSpace c) ++ [xs.rtakeWhile (fun c => !isSpace c) ++ m] := by
  have hrun : ∀ c ∈ xs.rtakeWhile (fun c => !isSpace c) ++ m, isSpace c = false := fun c hc =>
    (List.mem_append.mp hc).elim (fun hc => by simpa using List.mem_rtakeWhile_imp hc) (hword c)
  conv_lhs => rw [← List.rdropWhile_append_rtakeWhile (p := fun c => !isSpace c) (l := xs), List.append_assoc]
  rcases List.eq_nil_or_concat (xs.rdropWhile fun c => !isSpace c) with hnil | ⟨ys, d, hconcat⟩
  · rw [hnil, List.nil_append, tokens_word (by simp [hm]) hrun]
    rfl
  · have hd : isSpace d = true := by
      have hne : xs.rdropWhile (fun c => !isSpace c) ≠ [] := by simp [hconcat]
      have := List.rdropWhile_last_not _ _ hne
      simpa [hconcat] using this
    rw [hconcat, List.concat_eq_append, List.append_assoc, List.singleton_append, tokens_append_cons _ _ hd,
      tokens_word (by simp [hm]) hrun, tokens_append_spaces _ (List.forall_mem_singleton.mpr hd)]

theorem tokens_run {xs : List Char} : tokens xs = tokens (xs.rdropWhile fun c => !isSpace c) ++
    if xs.rtakeWhile (fun c => !isSpace c) = [] then [] else [xs.rtakeWhile fun c => !isSpace c] := by
  have hrun : ∀ c ∈ xs.rtakeWhile (fun c => !isSpace c), isSpace c = false := fun c hc => by
    simpa using List.mem_rtakeWhile_imp hc
  split
  · rename_i hnil
    have := List.rdropWhile_append_rtakeWhile (p := fun c => !isSpace c) (l := xs)
    rw [hnil, List.append_nil] at this
    rw [this, List.append_nil]
  · rename_i hne
    have hword := tokens_append_word (xs.rdropWhile fun c => !isSpace c) hne hrun
    rw [List.rdropWhile_append_rtakeWhile, List.rdropWhile_idempotent] at hword
    rw [hword, List.rtakeWhile_eq_nil_iff.mpr (List.rdropWhile_last_not _ _), List.nil_append]

/-- The words of a heading without its closing marker: a last word of marks only, after some other word. -/
def withoutClosing (ws : List (List Char)) : List (List Char) :=
  if 2 ≤ ws.length ∧ ws.getLast?.any (fun w => w.all isMark) = true then ws.dropLast else ws

/-- The last word ends in a mark but is no closing marker, nor a single mark. -/
def losesMarks (ws : List (List Char)) : Bool :=
  ws.getLast?.any fun w => w.getLast?.any isMark && !(w.all isMark && (2 ≤ ws.length || w.length == 1))

/-- The length of words without the blanks between them. -/
def chars (ws : List (List Char)) : Nat := (ws.map List.length).sum

theorem tokens_trimMarks {c : Char} {cs : List Char} :
    tokens (c :: trimMarks cs) = tokens (c :: cs.rdropWhile isMark) := by
  have hspaces := List.rdropWhile_append_rtakeWhile (p := isSpace) (l := cs.rdropWhile isMark)
  conv_rhs => rw [← hspaces, ← List.cons_append, tokens_append_spaces _ fun _ => List.mem_rtakeWhile_imp]
  rfl

theorem tokens_cons_ne_nil {c : Char} (hc : isSpace c = false) (cs : List Char) : tokens (c :: cs) ≠ [] := by
  induction cs using List.reverseRecOn with
  | nil => rw [tokens_word (by simp) (List.forall_mem_singleton.mpr hc)]; simp
  | append_singleton cs d ih =>
    rw [← List.cons_append]
    cases hd : isSpace d with
    | true => rwa [tokens_append_spaces _ (List.forall_mem_singleton.mpr hd)]
    | false =>
      rw [tokens_append_word _ (by simp) (List.forall_mem_singleton.mpr hd)]
      simp

/-- A last word of marks that has no white space in front of the marks at its end is the only one. -/
theorem tokens_eq_nil_of_all {c : Char} {cs : List Char} (hc : isSpace c = false)
    (hr : (c :: cs.rdropWhile isMark).rtakeWhile (fun c => !isSpace c) ≠ [])
    (hall : ((c :: cs.rdropWhile isMark).rtakeWhile fun c => !isSpace c).all isMark = true) :
    tokens ((c :: cs.rdropWhile isMark).rdropWhile fun c => !isSpace c) = [] := by
  rcases List.eq_nil_or_concat (cs.rdropWhile isMark) with hnil | ⟨xs, d, hconcat⟩
  · rw [hnil, List.rdropWhile_singleton, if_pos (by simp [hc])]
    rfl
  · have hmark : isMark d = false := by
      have := List.rdropWhile_last_not isMark cs (by simp [hconcat])
      simpa [hconcat] using this
    rw [hconcat, List.concat_eq_append, ← List.cons_append, List.rtakeWhile_concat] at hr hall
    split at hr
    · rename_i hd
      rw [if_pos hd, List.all_append, Bool.and_eq_true_iff] at hall
      simp [hmark] at hall
    · exact absurd rfl hr

/-- The heading of a text that neither begins nor ends with white space. -/
theorem heading_words_or {c : Char} {cs : List Char} (hc : isSpace c = false) (hend : ∀ d ∈ cs.getLast?, isSpace d = false) :
    (losesMarks (tokens (c :: cs)) = false ∧ tokens (c :: trimMarks cs) = withoutClosing (tokens (c :: cs))) ∨
      (losesMarks (tokens (c :: cs)) = true ∧ chars (tokens (c :: trimMarks cs)) < chars (withoutClosing (tokens (c :: cs)))) := by
  rw [tokens_trimMarks]
  have hsplit : c :: cs = (c :: cs.rdropWhile isMark) ++ cs.rtakeWhile isMark := by
    rw [List.cons_append, List.rdropWhile_append_rtakeWhile]
  have hmarks : ∀ d ∈ cs.rtakeWhile isMark, isMark d = true := fun _ => List.mem_rtakeWhile_imp
  by_cases hnil : cs.rtakeWhile isMark = []
  · -- no mark at the end, unless the text is a single mark
    left
    rw [hnil, List.append_nil] at hsplit
    rw [← hsplit]
    rcases List.eq_nil_or_concat cs with rfl | ⟨xs, d, hconcat⟩
    · rw [tokens_word (by simp) (List.forall_mem_singleton.mpr hc)]
      cases hmark : isMark c <;> simp [losesMarks, withoutClosing, hmark]
    · rw [List.concat_eq_append] at hconcat
      subst hconcat
      have hd : isSpace d = false := hend d (by simp)
      have hmark : isMark d = false := by
        have := List.rtakeWhile_eq_nil_iff.mp hnil (by simp)
        simpa using this
      rw [← List.cons_append, tokens_append_word _ (by simp) (List.forall_mem_singleton.mpr hd)]
      simp [losesMarks, withoutClosing, hmark]
  · have hword : ∀ d ∈ cs.rtakeWhile isMark, isSpace d = false := fun d hd => Bool.eq_false_iff.mpr fun hspace =>
      Bool.eq_false_iff.mp (isMark_of_isSpace hspace) (hmarks d hd)
    have hall : (cs.rtakeWhile isMark).all isMark = true := List.all_eq_true.mpr hmarks
    have htext := tokens_append_word (c :: cs.rdropWhile isMark) hnil hword
    rw [← hsplit] at htext
    have hrun := @tokens_run (c :: cs.rdropWhile isMark)
    rw [htext]
    by_cases hr : (c :: cs.rdropWhile isMark).rtakeWhile (fun c => !isSpace c) = []
    · -- white space before the marks: they are a closing marker
      left
      have hne : tokens (c :: cs.rdropWhile isMark) ≠ [] := tokens_cons_ne_nil hc _
      rw [if_pos hr, List.append_nil] at hrun
      rw [hrun] at hne
      have hlength := List.length_pos_iff.mpr hne
      rw [hrun, hr, List.nil_append, withoutClosing, losesMarks, List.getLast?_concat, List.length_append, if_pos, List.dropLast_concat]
      · refine ⟨?_, rfl⟩
        simp [hall, Nat.succ_le_succ hlength]
      · exact ⟨Nat.succ_le_succ hlength, hall⟩
    · -- no white space before the marks: they belong to a word
      right
      rw [if_neg hr] at hrun
      have hmixed := tokens_eq_nil_of_all hc hr
      have hlast : (cs.rtakeWhile isMark).getLast?.any isMark = true := by
        rw [List.getLast?_eq_some_getLast hnil]
        exact hmarks _ (List.getLast_mem hnil)
      have hpositive := List.length_pos_iff.mpr hnil
      have hr' := List.length_pos_iff.mpr hr
      rw [hrun]
      generalize tokens ((c :: cs.rdropWhile isMark).rdropWhile fun c => !isSpace c) = ws at hmixed ⊢
      generalize (c :: cs.rdropWhile isMark).rtakeWhile (fun c => !isSpace c) = w at hr' hmixed ⊢
      generalize cs.rtakeWhile isMark = marks at hlast hpositive ⊢
      have hclosing : ¬((w ++ marks).all isMark = true ∧ 2 ≤ (ws ++ [w ++ marks]).length) := by
        rintro ⟨hall, hlength⟩
        rw [List.all_append, Bool.and_eq_true_iff] at hall
        rw [hmixed hall.1] at hlength
        exact absurd hlength (by simp)
      have hlast' : (w ++ marks).getLast?.any isMark = true := by
        cases h : marks.getLast? with
        | none => simp [h] at hlast
        | some d => simpa [List.getLast?_append, h] using hlast
      have hlength : (w ++ marks).length ≠ 1 := by
        rw [List.length_append]
        omega
      constructor
      · rw [losesMarks, List.getLast?_concat, Option.any_some, hlast', Bool.true_and, Bool.not_eq_true', Bool.and_eq_false_iff]
        by_cases hall : (w ++ marks).all isMark = true
        · refine .inr (Bool.or_eq_false_iff.mpr ⟨?_, by simpa using hlength⟩)
          simpa using fun h => hclosing ⟨hall, h⟩
        · exact .inl (Bool.eq_false_iff.mpr hall)
      · rw [withoutClosing, List.getLast?_concat, if_neg fun h => hclosing ⟨h.2, h.1⟩]
        simp only [chars, List.map_append, List.sum_append, List.map_singleton, List.sum_singleton, List.length_append]
        omega

/-! ### Lines -/

/-- What a line that is a heading looks like. -/
theorem heading_some {line text : List Char} {level : Nat} (h : heading line = some (level, text)) : ∃ marks sp c cs,
    line = marks ++ (sp ++ c :: cs) ∧ marks.length = level ∧ marks ≠ [] ∧ (∀ d ∈ marks, isMark d = true) ∧
      sp ≠ [] ∧ (∀ d ∈ sp, isSpace d = true) ∧ isSpace c = false ∧ text = c :: trimMarks cs := by
  simp only [heading] at h
  split at h
  · rename_i hmatch
    obtain ⟨hone, -, hspace, htext⟩ := hmatch
    obtain ⟨rfl, rfl⟩ := Prod.mk.inj (Option.some.inj h)
    cases hcs : (line.dropWhile isMark).dropWhile isSpace with
    | nil => exact absurd hcs htext
    | cons c cs =>
      refine ⟨line.takeWhile isMark, (line.dropWhile isMark).takeWhile isSpace, c, cs, ?_, rfl, ?_, fun _ => List.mem_takeWhile_imp,
        ?_, fun _ => List.mem_takeWhile_imp, ?_, lazyText_cons c cs⟩
      · rw [← hcs, List.takeWhile_append_dropWhile, List.takeWhile_append_dropWhile]
      · exact List.ne_nil_of_length_pos hone
      · cases hrest : line.dropWhile isMark with
        | nil => simp [hrest] at hspace
        | cons d ds =>
          rw [hrest, List.head?_cons, Option.any_some] at hspace
          simp [hspace]
      · have := List.head?_dropWhile_not isSpace (line.dropWhile isMark)
        simpa [hcs] using this
  · cases h

/-- The words of a line without the markers of a heading: the marks that open it, and a closing marker. -/
def unmarked (line : List Char) : List (List Char) :=
  if (heading (strip line)).isSome then withoutClosing (tokens line).tail else tokens line

/-- The words of a line that `_split_units` keeps. -/
def kept (line : List Char) : List (List Char) :=
  match heading (strip line) with
  | some (_, text) => tokens text
  | none => tokens line

/-- A heading whose last word ends in marks that are no closing marker. -/
def EatsMarks (line : List Char) : Prop := (heading (strip line)).isSome ∧ losesMarks (tokens line).tail = true

theorem kept_or (line : List Char) : (¬EatsMarks line ∧ kept line = unmarked line) ∨
    (EatsMarks line ∧ chars (kept line) < chars (unmarked line)) := by
  rw [EatsMarks, unmarked, kept]
  cases h : heading (strip line) with
  | none => exact .inl ⟨fun h => absurd h.1 Bool.false_ne_true, rfl⟩
  | some x =>
    obtain ⟨level, text⟩ := x
    obtain ⟨marks, sp, c, cs, hline, -, hmarks, hmark, hsp, hspace, hc, rfl⟩ := heading_some h
    have htail : (tokens line).tail = tokens (c :: cs) := by
      rw [← tokens_strip, hline, tokens_append_space_append _ _ hsp hspace, tokens_word hmarks fun d hd =>
        Bool.eq_false_iff.mpr fun hd' => Bool.eq_false_iff.mp (isMark_of_isSpace hd') (hmark d hd)]
      rfl
    have hend : ∀ d ∈ cs.getLast?, isSpace d = false := by
      refine fun d hd => @getLast_strip line d ?_
      have hcs : cs.getLast? = some d := hd
      rw [hline, List.getLast?_append, List.getLast?_append, List.getLast?_cons, hcs]
      rfl
    rw [htail]
    simpa using heading_words_or hc hend

/-! ### Units -/

/-- The units that `add` makes of some pieces: only the first can start a section. -/
def unitsOf (heading : Option String) (isHeading : Bool) (pending : Bool) : List String → List TextUnit
  | [] => []
  | text :: pieces => { text, heading, startsSection := pending, isHeading } :: unitsOf heading isHeading false pieces

theorem words_unitsOf {heading : Option String} {isHeading : Bool} : ∀ {pieces : List String} {pending : Bool},
    (unitsOf heading isHeading pending pieces).flatMap (fun u => words u.text) = pieces.flatMap words
  | [], _ => rfl
  | _ :: pieces, _ => congrArg _ (@words_unitsOf _ _ pieces _)

namespace Splitter
variable {st : Splitter}

theorem add_eq {pieces : List String} {isHeading : Bool} : st.add pieces isHeading = { st with
    units := st.units ++ unitsOf st.headingPath isHeading st.pendingSection pieces
    pendingSection := st.pendingSection && pieces.isEmpty } := by
  rw [add]
  generalize st.headingPath = heading
  induction pieces generalizing st with
  | nil => simp [unitsOf]
  | cons text pieces ih =>
    rw [List.foldl_cons, ih]
    simp [unitsOf]

theorem flush_eq : st.flush = { st with
    units := st.units ++ unitsOf st.headingPath false st.pendingSection (sentences st.paragraph)
    pendingSection := st.pendingSection && (sentences st.paragraph).isEmpty
    paragraph := [] } := by
  rw [flush, add_eq]

/-- The words that have been read. -/
def read (st : Splitter) : List String := st.units.flatMap (fun u => words u.text) ++ st.paragraph.flatMap words

theorem read_flush : st.flush.read = st.read := by
  rw [flush_eq, read, List.flatMap_append, words_unitsOf, words_sentences, List.flatMap_nil, List.append_nil, read]

theorem read_add {pieces : List String} {isHeading : Bool} (h : st.paragraph = []) :
    (st.add pieces isHeading).read = st.read ++ pieces.flatMap words := by
  rw [add_eq, read, read, List.flatMap_append, words_unitsOf, h]
  simp

theorem paragraph_flush : st.flush.paragraph = [] := by rw [flush_eq]

/-- A heading takes the place of those that it does not stand under. -/
def opens (st : Splitter) (level : Nat) (text : String) : Splitter :=
  { st with stack := (level, text) :: st.stack.dropWhile fun h => level ≤ h.1, pendingSection := true }

section ReadLine
variable {rawLine : List Char}

theorem readLine_heading {level : Nat} {text : List Char} (h : heading (strip rawLine) = some (level, text)) :
    st.readLine rawLine = (st.flush.opens level (.ofList text)).add [.ofList text] true := by
  simp only [readLine, opens, h, Option.isSome_some, true_or, or_true, if_true]

theorem readLine_blank (h : strip rawLine = []) : st.readLine rawLine = st.flush := by
  simp [readLine, h, heading]

theorem readLine_item (hheading : heading (strip rawLine) = none) (hne : strip rawLine ≠ [])
    (hitem : standalone (strip rawLine) = true) : st.readLine rawLine = st.flush.add [.ofList (strip rawLine)] false := by
  simp [readLine, hheading, hne, hitem]

theorem readLine_text (hheading : heading (strip rawLine) = none) (hne : strip rawLine ≠ [])
    (hitem : standalone (strip rawLine) = false) :
    st.readLine rawLine = { st with paragraph := st.paragraph ++ [.ofList (strip rawLine)] } := by
  simp [readLine, hheading, hne, hitem]

end ReadLine

theorem read_readLine (rawLine : List Char) : (st.readLine rawLine).read = st.read ++ (kept rawLine).map .ofList := by
  rw [kept]
  cases hheading : heading (strip rawLine) with
  | some x =>
    obtain ⟨level, text⟩ := x
    have hparagraph : (st.flush.opens level (.ofList text)).paragraph = [] := @paragraph_flush st
    rw [readLine_heading hheading, read_add hparagraph, List.flatMap_singleton, words_ofList]
    exact congrArg (· ++ _) read_flush
  | none =>
    by_cases hblank : strip rawLine = []
    · rw [readLine_blank hblank, read_flush]
      dsimp only
      rw [← tokens_strip, hblank]
      exact (List.append_nil _).symm
    · by_cases hitem : standalone (strip rawLine) = true
      · rw [readLine_item hheading hblank hitem, read_add paragraph_flush, List.flatMap_singleton, words_ofList, tokens_strip,
          read_flush]
      · rw [readLine_text hheading hblank (Bool.eq_false_iff.mpr hitem), read, read, List.flatMap_append,
          List.flatMap_singleton, words_ofList, tokens_strip, List.append_assoc]

theorem read_lines : ∀ {lines : List (List Char)} {st : Splitter},
    (lines.foldl readLine st).read = st.read ++ (lines.flatMap kept).map .ofList
  | [], st => (List.append_nil st.read).symm
  | rawLine :: lines, st => by
    rw [List.foldl_cons, read_lines, read_readLine, List.flatMap_cons, List.map_append, List.append_assoc]

end Splitter

/-- The words of a text without the markers of its headings. -/
def unmarkedWords (text : String) : List String := ((linesOf text).flatMap unmarked).map .ofList

theorem words_splitUnits (text : String) :
    (splitUnits text).flatMap (fun u => words u.text) = ((linesOf text).flatMap kept).map .ofList := by
  have h := Splitter.read_flush.trans (@Splitter.read_lines (linesOf text) {})
  rw [Splitter.read, Splitter.paragraph_flush, List.flatMap_nil, List.append_nil] at h
  exact h

theorem chars_append {xs ys : List (List Char)} : chars (xs ++ ys) = chars xs + chars ys := by
  rw [chars, List.map_append, List.sum_append]
  rfl

theorem kept_iff : ∀ {lines : List (List Char)}, chars (lines.flatMap kept) ≤ chars (lines.flatMap unmarked) ∧
    (lines.flatMap kept = lines.flatMap unmarked ↔ ∀ line ∈ lines, ¬EatsMarks line)
  | [] => ⟨le_rfl, iff_of_true rfl nofun⟩
  | line :: lines => by
    obtain ⟨hle, hiff⟩ := @kept_iff lines
    rw [List.flatMap_cons, List.flatMap_cons, chars_append, chars_append, List.forall_mem_cons]
    rcases kept_or line with ⟨hintact, heq⟩ | ⟨heats, hlt⟩
    · rw [heq]
      exact ⟨Nat.add_le_add_left hle _, by rw [List.append_cancel_left_eq, hiff, and_iff_right hintact]⟩
    · refine ⟨by omega, iff_of_false (fun h => ?_) fun h => h.1 heats⟩
      have := congrArg chars h
      rw [chars_append, chars_append] at this
      omega

/-- The units of a text have its words without the markers of headings, unless the last word of a heading ends in marks
    that are no closing marker. -/
theorem splitUnits_words_iff (text : String) : (splitUnits text).flatMap (fun u => words u.text) = unmarkedWords text ↔
    ∀ line ∈ linesOf text, ¬EatsMarks line := by
  rw [words_splitUnits, unmarkedWords, (List.map_injective_iff.mpr fun _ _ => String.ofList_inj.mp).eq_iff]
  exact kept_iff.2

namespace ClosingMarks

/-- `# About C#` is left as "About C". -/
theorem not_intact : (splitUnits "# About C#").flatMap (fun u => words u.text) ≠ unmarkedWords "# About C#" := by
  decide

end ClosingMarks
end NexusGate.Rag
