import NexusGate.Text.Separator
import NexusGate.Theorems.Rag.Headings

/-! # Headings that are left out

In structured mode a heading is put into no body, as every chunk of its section has it in the prefix. A section without
any other unit has no chunk, and its heading is lost. -/

namespace NexusGate.Rag
open Text

/-! ### Units are single lines -/

theorem mem_strip {c : Char} {cs : List Char} (h : c ∈ strip cs) : c ∈ cs :=
  (List.dropWhile_suffix _).subset ((List.rdropWhile_prefix _ _).subset h)

theorem mem_splitSentences : ∀ {cs piece x : List Char} {skip : Bool}, x ∈ splitSentences skip piece cs →
    ∀ c ∈ x, c ∈ piece ∨ c ∈ cs
  | [], piece, x, _, hx, c, hc => by
    rw [splitSentences, List.mem_singleton] at hx
    rw [hx] at hc
    exact .inl (List.mem_reverse.mp hc)
  | d :: cs, piece, x, skip, hx, c, hc => by
    rw [splitSentences] at hx
    split at hx
    · exact (mem_splitSentences hx c hc).imp id (List.mem_cons_of_mem _)
    · split at hx
      · rcases List.mem_cons.mp hx with rfl | hx
        · exact .inl (List.mem_reverse.mp hc)
        · exact .inr ((mem_splitSentences hx c hc).elim (fun h => absurd h List.not_mem_nil) (List.mem_cons_of_mem _))
      · rcases mem_splitSentences hx c hc with h | h
        · exact (List.mem_cons.mp h).elim (fun h => .inr (h ▸ List.mem_cons_self)) .inl
        · exact .inr (List.mem_cons_of_mem _ h)

theorem mem_intercalate {α : Type} {a : α} {sep : List α} : ∀ {xss : List (List α)}, a ∈ sep.intercalate xss → a ∈ sep ∨ ∃ xs ∈ xss, a ∈ xs
  | [], h => absurd h List.not_mem_nil
  | [xs], h => .inr ⟨xs, List.mem_singleton_self xs, by rwa [List.intercalate_singleton] at h⟩
  | xs :: ys :: xss, h => by
    rw [List.intercalate_cons_cons] at h
    rcases List.mem_append.mp h with h | h
    · exact (List.mem_append.mp h).elim (fun h => .inr ⟨xs, List.mem_cons_self, h⟩) .inl
    · exact (mem_intercalate h).imp id fun ⟨zs, hzs, h⟩ => ⟨zs, List.mem_cons_of_mem _ hzs, h⟩

/-- The text has no newline. -/
def OneLine (text : String) : Prop := '\n' ∉ text.toList

theorem oneLine_sentences {lines : List String} (h : ∀ line ∈ lines, OneLine line) : ∀ text ∈ sentences lines, OneLine text := by
  intro text htext hnewline
  obtain ⟨cs, hcs, rfl⟩ := List.mem_map.mp htext
  obtain ⟨x, hx, rfl⟩ := List.mem_map.mp (List.mem_filter.mp hcs).1
  rw [String.toList_ofList] at hnewline
  rcases mem_splitSentences hx _ (mem_strip hnewline) with h' | h'
  · exact List.not_mem_nil h'
  · rw [String.toList_intercalate] at h'
    rcases mem_intercalate h' with h' | ⟨xs, hxs, h'⟩
    · exact absurd h' (by decide)
    · obtain ⟨line, hline, rfl⟩ := List.mem_map.mp hxs
      exact h line hline h'

theorem mem_trimMarks {c : Char} {cs : List Char} (h : c ∈ trimMarks cs) : c ∈ cs :=
  (List.rdropWhile_prefix _ _).subset ((List.rdropWhile_prefix _ _).subset h)

theorem mem_heading {line text : List Char} {level : Nat} (h : heading line = some (level, text)) {c : Char} (hc : c ∈ text) :
    c ∈ line := by
  obtain ⟨marks, sp, d, cs, rfl, -, -, -, -, -, -, rfl⟩ := heading_some h
  refine List.mem_append_right _ (List.mem_append_right _ ?_)
  exact (List.mem_cons.mp hc).elim (fun hc => hc ▸ List.mem_cons_self) fun hc => List.mem_cons_of_mem _ (mem_trimMarks hc)

theorem oneLine_pieces : ∀ {lines : List (List Char)} {paragraph : List String}, (∀ line ∈ lines, '\n' ∉ line) →
    (∀ text ∈ paragraph, OneLine text) → ∀ p ∈ pieces paragraph lines, OneLine p.text
  | lines, paragraph, hlines, hparagraph, p, hp => by
    have hplain : p ∈ plain (sentences paragraph) → OneLine p.text := fun h => by
      obtain ⟨text, htext, rfl⟩ := List.mem_map.mp h
      exact oneLine_sentences hparagraph text htext
    cases lines with
    | nil => exact hplain hp
    | cons rawLine lines =>
      obtain ⟨hline, hlines⟩ := List.forall_mem_cons.mp hlines
      have hstrip : '\n' ∉ strip rawLine := fun h => hline (mem_strip h)
      rw [pieces] at hp
      split at hp
      · rename_i hheading
        rcases List.mem_append.mp hp with hp | hp
        · exact hplain hp
        · rcases List.mem_cons.mp hp with rfl | hp
          · intro h
            rw [String.toList_ofList] at h
            exact hstrip (mem_heading hheading h)
          · exact oneLine_pieces hlines (List.forall_mem_nil _) p hp
      · split at hp
        · exact (List.mem_append.mp hp).elim hplain (oneLine_pieces hlines (List.forall_mem_nil _) p)
        · split at hp
          · rcases List.mem_append.mp hp with hp | hp
            · exact hplain hp
            · rcases List.mem_cons.mp hp with rfl | hp
              · intro h
                rw [String.toList_ofList] at h
                exact hstrip h
              · exact oneLine_pieces hlines (List.forall_mem_nil _) p hp
          · refine oneLine_pieces hlines (List.forall_mem_append.mpr ⟨hparagraph, List.forall_mem_singleton.mpr fun h => ?_⟩) p hp
            rw [String.toList_ofList] at h
            exact hstrip h

/-! ### Where a unit goes -/

theorem piece_of_unit : ∀ {ps before : List Piece} {u : TextUnit}, u ∈ headed before ps →
    ∃ pre p post, ps = pre ++ p :: post ∧ u.text = p.text ∧ u.isHeading = p.level.isSome
  | p :: ps, _, u, hu => by
    rcases List.mem_cons.mp hu with rfl | hu
    · exact ⟨[], p, ps, rfl, rfl, rfl⟩
    · obtain ⟨pre, q, post, rfl, hunit⟩ := piece_of_unit hu
      exact ⟨p :: pre, q, post, rfl, hunit⟩

theorem oneLine_splitUnits {text : String} {u : TextUnit} (hu : u ∈ splitUnits text) : OneLine u.text := by
  have hlines : ∀ line ∈ linesOf text, '\n' ∉ line := fun line hline hnewline => by
    rw [linesOf, List.splitOn_eq_splitOnP] at hline
    exact absurd (mem_splitOnP hline _ hnewline) (by decide)
  rw [splitUnits_headed] at hu
  obtain ⟨pre, p, post, hpieces, htext, -⟩ := piece_of_unit hu
  rw [htext]
  refine oneLine_pieces hlines (List.forall_mem_nil _) p ?_
  rw [hpieces]
  exact List.mem_append_right _ List.mem_cons_self

theorem kept_ne_nil {line : List Char} (h : strip line ≠ []) : kept line ≠ [] := by
  rw [kept]
  split
  · rename_i hheading
    obtain ⟨marks, sp, c, cs, -, -, -, -, -, -, hc, rfl⟩ := heading_some hheading
    exact tokens_cons_ne_nil hc _
  · rw [← tokens_strip]
    cases hline : strip line with
    | nil => exact absurd hline h
    | cons c cs =>
      refine tokens_cons_ne_nil ?_ cs
      obtain ⟨t, ht⟩ := List.rdropWhile_prefix isSpace (line.dropWhile isSpace)
      have hhead := List.head?_dropWhile_not isSpace line
      rw [← ht, show (line.dropWhile isSpace).rdropWhile isSpace = c :: cs from hline] at hhead
      simpa using hhead

/-- A line that is not blank gives some unit. -/
theorem splitUnits_ne_nil {text : String} {line : List Char} (hline : line ∈ linesOf text) (h : strip line ≠ []) :
    splitUnits text ≠ [] := by
  intro hnil
  have hwords := words_splitUnits text
  rw [hnil, List.flatMap_nil] at hwords
  have hkept := List.flatMap_eq_nil_iff.mp (List.map_eq_nil_iff.mp hwords.symm) line hline
  exact kept_ne_nil h hkept

/-- The unit of a piece. -/
theorem headed_piece {before after ps : List Piece} {p : Piece} (h : ps = before ++ p :: after) : ∃ u ∈ headed [] ps,
    u.text = p.text ∧ u.isHeading = p.level.isSome ∧ u.heading = pathOf (enclosing (before ++ [p])) := by
  rw [h, headed_append]
  exact ⟨_, List.mem_append_right _ List.mem_cons_self, rfl, rfl, rfl⟩

/-- A heading encloses what comes after it, up to the next one of the same or a smaller level. -/
theorem mem_enclosing_of_clear {p : Piece} {level : Nat} {ps : List Piece} (hlevel : p.level = some level) (hclear : Clear level ps) :
    ∀ {before : List Piece}, (level, p.text) ∈ enclosing (before ++ p :: ps)
  | [] => by simp [enclosing, hlevel, hclear]
  | q :: before => by
    have ih := @mem_enclosing_of_clear p level ps hlevel hclear before
    rw [List.cons_append, enclosing]
    split
    · split
      · exact List.mem_cons_of_mem _ ih
      · exact ih
    · exact ih

namespace SentenceChunker
variable {self : SentenceChunker} {sections : List Section} {title : Option String} {s : Section} {u : TextUnit}

/-- What a body can hold of a unit: its text, or a run of its words. -/
def textsOf (chunker : SentenceChunker) (u : TextUnit) : List String :=
  if u.size ≤ chunker.maxWords then [u.text] else (chunker.hardSplit u).map Prod.snd

/-- A unit is a line of a body, or its words are those of some bodies that follow each other. -/
def InBodies (chunker : SentenceChunker) (sections : List Section) (title : Option String) (u : TextUnit) : Prop :=
  if u.size ≤ chunker.maxWords then
    ∃ c ∈ chunker.chunk sections title, ∃ us, u ∈ us ∧ c.text = chunker.chunkText title u.heading (bodyOf us)
  else (chunker.hardSplit u).map (fun x => chunker.chunkText title u.heading x.2) <:+: (chunker.chunk sections title).map Chunk.text

theorem chunk_texts : (self.chunk sections title).map Chunk.text =
    sections.flatMap fun s => (self.pack (splitUnits s.text)).map fun x => self.chunkText title x.1 x.2 := by
  have hitems := congrArg (List.map Prod.fst) (@chunk_items self title sections)
  rw [List.map_map, items, List.map_flatMap] at hitems
  simp only [List.map_map] at hitems
  exact hitems

theorem infix_texts (hs : s ∈ sections) {xs : List (Option String × String)} (h : xs <:+: self.pack (splitUnits s.text)) :
    xs.map (fun x => self.chunkText title x.1 x.2) <:+: (self.chunk sections title).map Chunk.text := by
  rw [chunk_texts, List.flatMap_def]
  have hmap := List.IsInfix.map (fun x => self.chunkText title x.1 x.2) h
  have hsection : (self.pack (splitUnits s.text)).map (fun x => self.chunkText title x.1 x.2) <:+:
      (sections.map fun s => (self.pack (splitUnits s.text)).map fun x => self.chunkText title x.1 x.2).flatten :=
    List.infix_of_mem_flatten (List.mem_map.mpr ⟨s, hs, rfl⟩)
  exact hmap.trans hsection

theorem inBodies (hstructured : self.structured = true) (hs : s ∈ sections) (hu : u ∈ splitUnits s.text)
    (hplain : u.isHeading = false) : self.InBodies sections title u := by
  obtain ⟨blocks, hpack, hpacks, hunder⟩ := pack_under hstructured s.text
  have hnews : u ∈ blocks.flatMap self.news := by
    rw [hpacks.ordered]
    exact List.mem_filter.mpr ⟨hu, by rw [keeps_structured hstructured, hplain]; rfl⟩
  obtain ⟨b, hb, hub⟩ := List.mem_flatMap.mp hnews
  have hformed := hpacks.formed b hb
  rw [InBodies]
  cases b with
  | split skipped v =>
    obtain ⟨hskipped, -, hlong⟩ := hformed
    obtain rfl : u = v := by
      rw [news, Block.source, List.filter_append, filter_skipped hskipped] at hub
      exact List.mem_singleton.mp (List.mem_of_mem_filter hub)
    rw [if_neg (Nat.not_le.mpr hlong)]
    have hrow : self.hardSplit u <:+: self.pack (splitUnits s.text) := by
      rw [hpack, List.flatMap_def]
      exact List.infix_of_mem_flatten (List.mem_map_of_mem hb)
    have hheadings : (self.hardSplit u).map (fun x => self.chunkText title u.heading x.2) =
        (self.hardSplit u).map fun x => self.chunkText title x.1 x.2 := by
      refine List.map_congr_left fun x hx => ?_
      obtain ⟨run, -, rfl⟩ := List.mem_map.mp hx
      rfl
    rw [hheadings]
    exact infix_texts hs hrow
  | whole carried source =>
    have hkept := List.mem_filter.mp hub
    rw [if_pos (hformed.2.1 u hkept.1 hkept.2)]
    have hx := hunder _ hb _ List.mem_cons_self
    have hmem : u ∈ self.unitsIn (.whole carried source) := List.mem_append_right _ hub
    obtain ⟨c, hc, htext, -⟩ := @chunk_of_mem self title _ _ hs _
      (by rw [hpack]; exact List.mem_flatMap.mpr ⟨_, hb, List.mem_cons_self⟩)
    refine ⟨c, hc, _, hmem, htext.trans ?_⟩
    rw [hx.path u hmem]
    rfl

/-! ### Where a heading goes -/

theorem chunkText_eq (hstructured : self.structured = true) {heading : Option String} {body : String} :
    self.chunkText title heading body =
      if contextPrefix title heading = "" then body else contextPrefix title heading ++ "\n" ++ body := by
  simp only [chunkText, hstructured, if_true]

theorem occurs_contextPrefix (hstructured : self.structured = true) {heading : Option String} {body : String} :
    Occurs (contextPrefix title heading) (self.chunkText title heading body) := by
  rw [chunkText_eq hstructured]
  split
  · rename_i hempty
    rw [hempty]
    exact List.nil_infix
  · rw [String.append_assoc]
    exact occurs_left

theorem occurs_body (hstructured : self.structured = true) {heading : Option String} {body : String} :
    Occurs body (self.chunkText title heading body) := by
  rw [chunkText_eq hstructured]
  split
  · exact List.infix_rfl
  · exact occurs_right

theorem occurs_chunkText (hstructured : self.structured = true) {heading : Option String} {body t : String} (ht : OneLine t)
    (h : Occurs t (self.chunkText title heading body)) : Occurs t (contextPrefix title heading) ∨ Occurs t body := by
  rw [chunkText_eq hstructured] at h
  split at h
  · exact .inr h
  · exact occurs_append_sep rfl ht h

theorem hardSplit_ne_nil (hlong : ¬u.size ≤ self.maxWords) : self.hardSplit u ≠ [] := by
  intro hnil
  have hwords := (@hardSplit_runs self u).whole
  rw [hnil, List.flatMap_nil] at hwords
  rw [TextUnit.size, ← hwords] at hlong
  exact hlong (Nat.zero_le _)

/-- What is in the prefix of a unit that is no heading is in some chunk. -/
theorem chunk_of_prefix (hstructured : self.structured = true) (hs : s ∈ sections) (hu : u ∈ splitUnits s.text)
    (hplain : u.isHeading = false) {t : String} (ht : Occurs t (contextPrefix title u.heading)) :
    ∃ c ∈ self.chunk sections title, Occurs t c.text := by
  have hin := @inBodies self sections title s u hstructured hs hu hplain
  rw [InBodies] at hin
  split at hin
  · obtain ⟨c, hc, us, -, htext⟩ := hin
    refine ⟨c, hc, ht.trans ?_⟩
    rw [htext]
    exact occurs_contextPrefix hstructured
  · rename_i hlong
    obtain ⟨x, xs, hx⟩ := List.exists_cons_of_ne_nil (hardSplit_ne_nil hlong)
    have hmem := hin.subset (List.mem_map_of_mem (hx ▸ List.mem_cons_self))
    obtain ⟨c, hc, htext⟩ := List.mem_map.mp hmem
    refine ⟨c, hc, ht.trans ?_⟩
    rw [htext]
    exact occurs_contextPrefix hstructured

theorem chunk_of_text (hstructured : self.structured = true) (hs : s ∈ sections) (hu : u ∈ splitUnits s.text)
    (hplain : u.isHeading = false) {line : String} (hline : line ∈ self.textsOf u) :
    ∃ c ∈ self.chunk sections title, Occurs line c.text := by
  have hin := @inBodies self sections title s u hstructured hs hu hplain
  rw [InBodies] at hin
  rw [textsOf] at hline
  split at hin
  · rename_i hfits
    rw [if_pos hfits, List.mem_singleton] at hline
    obtain ⟨c, hc, us, hmem, htext⟩ := hin
    have hbody : Occurs u.text (bodyOf us) := occurs_intercalate (List.mem_map_of_mem hmem)
    refine ⟨c, hc, ?_⟩
    rw [htext, hline]
    exact hbody.trans (occurs_body hstructured)
  · rename_i hlong
    rw [if_neg hlong] at hline
    obtain ⟨x, hx, rfl⟩ := List.mem_map.mp hline
    obtain ⟨c, hc, htext⟩ := List.mem_map.mp (hin.subset (List.mem_map_of_mem hx))
    refine ⟨c, hc, ?_⟩
    rw [htext]
    exact occurs_body hstructured

/-- The text is in the prefix of a unit that is no heading, or in the unit itself. -/
def Elsewhere (chunker : SentenceChunker) (sections : List Section) (title : Option String) (t : String) : Prop :=
  ∃ s ∈ sections, ∃ u ∈ splitUnits s.text, u.isHeading = false ∧
    (Occurs t (contextPrefix title u.heading) ∨ ∃ line ∈ chunker.textsOf u, Occurs t line)

theorem size_le_totalSize : ∀ {us : List TextUnit}, u ∈ us → u.size ≤ totalSize us
  | v :: us, h => by
    rw [totalSize_cons]
    rcases List.mem_cons.mp h with rfl | h
    · exact Nat.le_add_right _ _
    · exact (size_le_totalSize h).trans (Nat.le_add_left _ _)

theorem elsewhere_iff (hstructured : self.structured = true) {t : String} (ht : OneLine t) :
    (∃ c ∈ self.chunk sections title, Occurs t c.text) ↔ self.Elsewhere sections title t := by
  constructor
  · rintro ⟨c, hc, hocc⟩
    obtain ⟨s, hs, x, hx, htext, -⟩ := mem_chunk hc
    obtain ⟨blocks, hpack, hpacks, hunder⟩ := pack_under hstructured s.text
    rw [hpack] at hx
    obtain ⟨b, hb, hx⟩ := List.mem_flatMap.mp hx
    have hunits := hunder b hb x hx
    rw [htext] at hocc
    rcases occurs_chunkText hstructured ht hocc with hocc | hocc
    · obtain ⟨u, hu⟩ := List.exists_mem_of_ne_nil _ hunits.some
      exact ⟨s, hs, u, hunits.row.subset hu, hunits.plain u hu, .inl (by rwa [hunits.path u hu])⟩
    · rcases hunits.body with hbody | ⟨u, hus, hlong, run, hrun, hbody⟩
      · rw [hbody] at hocc
        obtain ⟨text, hmem, hocc⟩ := occurs_of_intercalate rfl ht (by simpa using hunits.some) hocc
        obtain ⟨u, hu, rfl⟩ := List.mem_map.mp hmem
        have hsize := hpacks.bounded b hb x hx
        rw [hbody, words_bodyOf] at hsize
        refine ⟨s, hs, u, hunits.row.subset hu, hunits.plain u hu, .inr ⟨u.text, ?_, hocc⟩⟩
        rw [textsOf, if_pos ((size_le_totalSize hu).trans hsize)]
        exact List.mem_cons_self
      · have hu : u ∈ self.unitsIn b := hus ▸ List.mem_cons_self
        refine ⟨s, hs, u, hunits.row.subset hu, hunits.plain u hu, .inr ⟨x.2, ?_, hocc⟩⟩
        rw [textsOf, if_neg (Nat.not_le.mpr hlong), hbody]
        exact List.mem_map.mpr ⟨_, List.mem_map_of_mem hrun, rfl⟩
  · rintro ⟨s, hs, u, hu, hplain, hocc | ⟨line, hline, hocc⟩⟩
    · exact chunk_of_prefix hstructured hs hu hplain hocc
    · obtain ⟨c, hc, hocc'⟩ := @chunk_of_text self sections title s u hstructured hs hu hplain line hline
      exact ⟨c, hc, hocc.trans hocc'⟩

/-- A heading is followed by something else before the next heading of the same or a smaller level. -/
def Followed (level : Nat) (after : List Piece) : Prop :=
  ∃ between q rest, after = between ++ q :: rest ∧ q.level = none ∧ Clear level between

theorem elsewhere_of_followed (hs : s ∈ sections) {before after : List Piece} {p : Piece} {level : Nat}
    (hpieces : pieces [] (linesOf s.text) = before ++ p :: after) (hlevel : p.level = some level) (h : Followed level after) :
    self.Elsewhere sections title p.text := by
  obtain ⟨between, q, rest, rfl, hq, hclear⟩ := h
  have hsplit : pieces [] (linesOf s.text) = (before ++ p :: between) ++ q :: rest := by
    rw [hpieces, List.append_assoc]
    rfl
  obtain ⟨u, hu, -, hheading, hpath⟩ := headed_piece hsplit
  rw [← splitUnits_headed] at hu
  refine ⟨s, hs, u, hu, by rw [hheading, hq]; rfl, .inl ?_⟩
  have hclear' : Clear level (between ++ [q]) := clear_append.mpr ⟨hclear, by simp [Clear, hq]⟩
  have hmem := @mem_enclosing_of_clear p level _ hlevel hclear' before
  have hjoin : Occurs p.text (" > ".intercalate ((enclosing (before ++ p :: between ++ [q])).map Prod.snd)) :=
    occurs_intercalate (List.mem_map.mpr ⟨_, by rw [List.append_assoc]; exact hmem, rfl⟩)
  cases henclosing : enclosing (before ++ p :: between ++ [q]) with
  | nil =>
    rw [List.append_assoc] at henclosing
    exact absurd hmem (henclosing ▸ List.not_mem_nil)
  | cons h hs =>
    rw [henclosing] at hpath hjoin
    rw [hpath]
    rcases @contextPrefix_some title _ (path_ne_empty hu hpath) with hprefix | ⟨t, -, hprefix⟩
    · exact hprefix.symm ▸ hjoin
    · exact hprefix.symm ▸ hjoin.trans occurs_right

/-! ### Documents -/

/-- Structured chunking drops no text. -/
structure LeavesNothingOut (chunker : SentenceChunker) (sections : List Section) (title : Option String) : Prop where
  some : (∃ s ∈ sections, ∃ line ∈ linesOf s.text, strip line ≠ []) → chunker.chunk sections title ≠ []
  headings : ∀ s ∈ sections, ∀ u ∈ splitUnits s.text, u.isHeading = true → ∃ c ∈ chunker.chunk sections title, Occurs u.text c.text
  units : ∀ s ∈ sections, ∀ u ∈ splitUnits s.text, u.isHeading = false → chunker.InBodies sections title u

/-- Each heading is followed by a unit that it encloses, or its text can be read elsewhere. -/
def KeepsHeadings (chunker : SentenceChunker) (sections : List Section) (title : Option String) : Prop :=
  ∀ s ∈ sections, ∀ before p after level, pieces [] (linesOf s.text) = before ++ p :: after → p.level = some level →
    Followed level after ∨ chunker.Elsewhere sections title p.text

theorem leavesNothingOut_of_keepsHeadings (hstructured : self.structured = true) (h : self.KeepsHeadings sections title) :
    self.LeavesNothingOut sections title := by
  have hheadings : ∀ s ∈ sections, ∀ u ∈ splitUnits s.text, u.isHeading = true →
      ∃ c ∈ self.chunk sections title, Occurs u.text c.text := by
    intro s hs u hu hheading
    rw [elsewhere_iff hstructured (oneLine_splitUnits hu)]
    rw [splitUnits_headed] at hu
    obtain ⟨before, p, after, hpieces, htext, hlevel⟩ := piece_of_unit hu
    rw [hheading] at hlevel
    obtain ⟨level, hlevel⟩ := Option.isSome_iff_exists.mp hlevel.symm
    rw [htext]
    exact (h s hs before p after level hpieces hlevel).elim (elsewhere_of_followed hs hpieces hlevel) id
  refine ⟨?_, hheadings, fun s hs u hu => inBodies hstructured hs hu⟩
  rintro ⟨s, hs, line, hline, hblank⟩
  obtain ⟨u, hu⟩ := List.exists_mem_of_ne_nil _ (splitUnits_ne_nil hline hblank)
  have hchunk : ∃ c ∈ self.chunk sections title, Occurs "" c.text := by
    cases hheading : u.isHeading with
    | true => exact (hheadings s hs u hu hheading).imp fun c hc => ⟨hc.1, List.nil_infix⟩
    | false => exact chunk_of_prefix hstructured hs hu hheading List.nil_infix
  obtain ⟨c, hc, -⟩ := hchunk
  exact List.ne_nil_of_mem hc

/-- Where something is left out, a heading has nothing under it. -/
theorem leavesNothingOut_of_followed (hstructured : self.structured = true) (h : ∀ s ∈ sections, ∀ before p after level,
    pieces [] (linesOf s.text) = before ++ p :: after → p.level = some level → Followed level after) :
    self.LeavesNothingOut sections title :=
  leavesNothingOut_of_keepsHeadings hstructured fun s hs before p after level hpieces hlevel =>
    .inl (h s hs before p after level hpieces hlevel)

theorem leavesNothingOut_iff (chunker : SentenceChunker) (hstructured : chunker.structured = true) (sections : List Section)
    (title : Option String) : chunker.LeavesNothingOut sections title ↔ chunker.KeepsHeadings sections title := by
  refine ⟨fun h s hs before p after level hpieces hlevel => ?_, leavesNothingOut_of_keepsHeadings hstructured⟩
  right
  obtain ⟨u, hu, htext, hheading, -⟩ := headed_piece hpieces
  rw [← splitUnits_headed] at hu
  rw [← htext, ← elsewhere_iff hstructured (oneLine_splitUnits hu)]
  exact h.headings s hs u hu (by rw [hheading, hlevel]; rfl)

namespace HeadingOnly

def chunker : SentenceChunker where
  maxWords := 40
  overlapWords := 8
  structured := true
  positive := by decide
  fits := by decide

/-- A document of a heading alone has no chunk. -/
theorem not_leavesNothingOut : ¬chunker.LeavesNothingOut [{ text := "# Overview" }] none := by
  intro h
  refine h.some ⟨_, List.mem_singleton_self _, "# Overview".toList, ?_, ?_⟩ ?_ <;> decide

theorem keepsHeadings : chunker.KeepsHeadings [{ text := "# Guide\n## Setup\nRun it." }] (some "Guide") := by
  intro s hs before p after level hpieces hlevel
  obtain rfl := List.mem_singleton.mp hs
  have hguide : pieces [] (linesOf "# Guide\n## Setup\nRun it.") =
      [{ text := "Guide", level := some 1 }, { text := "Setup", level := some 2 }, { text := "Run it." }] := rfl
  rw [hguide] at hpieces
  left
  rcases before with _ | ⟨x, _ | ⟨y, _ | ⟨z, before⟩⟩⟩
  · obtain ⟨rfl, rfl⟩ := List.cons.inj hpieces
    cases hlevel
    exact ⟨[_], _, [], rfl, rfl, by decide⟩
  · simp at hpieces
    obtain ⟨rfl, rfl, rfl⟩ := hpieces
    cases hlevel
    exact ⟨[], _, [], rfl, rfl, by decide⟩
  · simp at hpieces
    obtain ⟨rfl, rfl, rfl, rfl⟩ := hpieces
    cases hlevel
  · simp at hpieces

/-- Two headings with a sentence under them are in the prefix of its chunk. -/
theorem leavesNothingOut_headings : chunker.LeavesNothingOut [{ text := "# Guide\n## Setup\nRun it." }] (some "Guide") :=
  (leavesNothingOut_iff _ rfl _ _).mpr keepsHeadings

end HeadingOnly
end SentenceChunker
end NexusGate.Rag
