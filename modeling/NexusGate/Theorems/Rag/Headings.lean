import Mathlib.Data.List.Chain
import NexusGate.Theorems.Rag.Packing
import NexusGate.Theorems.Rag.Units

/-! # Chunks stand under one heading path

The stack of `_split_units` holds the headings that enclose what comes next: those after which no heading of the same or
a smaller level has stood. In structured mode the body of a chunk is a run of units without a heading among them, so
that all of them have the path of the chunk. -/

namespace NexusGate.Rag
open Text

/-! ### Headings that enclose a unit -/

/-- A unit as the lines of a text tell it: a heading of some level, or not. -/
structure Piece where
  text : String
  level : Option Nat := none

/-- Pieces without a heading. -/
def plain (texts : List String) : List Piece := texts.map fun text => { text }

/-- The pieces of some lines, after those of a paragraph. -/
def pieces (paragraph : List String) : List (List Char) → List Piece
  | [] => plain (sentences paragraph)
  | rawLine :: lines =>
    match heading (strip rawLine) with
    | some (level, text) => plain (sentences paragraph) ++ { text := .ofList text, level := some level } :: pieces [] lines
    | none =>
      if strip rawLine = [] then plain (sentences paragraph) ++ pieces [] lines
      else if standalone (strip rawLine) then
        plain (sentences paragraph) ++ { text := .ofList (strip rawLine) } :: pieces [] lines
      else pieces (paragraph ++ [.ofList (strip rawLine)]) lines

/-- No piece is a heading of this level or a smaller one. -/
def Clear (level : Nat) (ps : List Piece) : Prop := ∀ p ∈ ps, ∀ l ∈ p.level, level < l

instance {level : Nat} {ps : List Piece} : Decidable (Clear level ps) := inferInstanceAs (Decidable (∀ p ∈ ps, ∀ l ∈ p.level, level < l))

/-- The headings, with their levels, that enclose the last of some pieces. -/
def enclosing : List Piece → List (Nat × String)
  | [] => []
  | p :: ps =>
    match p.level with
    | some level => if Clear level ps then (level, p.text) :: enclosing ps else enclosing ps
    | none => enclosing ps

/-- The path of some headings, if there are any. -/
def pathOf : List (Nat × String) → Option String
  | [] => none
  | headings => some (" > ".intercalate (headings.map Prod.snd))

/-- The units of some pieces that come after others, each with the path of the headings that enclose it. -/
def headed (before : List Piece) : List Piece → List TextUnit
  | [] => []
  | p :: ps => { text := p.text, heading := pathOf (enclosing (before ++ [p])), startsSection := p.level.isSome
                 isHeading := p.level.isSome } :: headed (before ++ [p]) ps

theorem headed_append : ∀ {ps before qs : List Piece}, headed before (ps ++ qs) = headed before ps ++ headed (before ++ ps) qs
  | [], before, qs => by rw [List.append_nil]; rfl
  | p :: ps, before, qs => by rw [List.cons_append, headed, headed, headed_append, List.append_assoc]; rfl

theorem clear_append {level : Nat} {ps qs : List Piece} : Clear level (ps ++ qs) ↔ Clear level ps ∧ Clear level qs :=
  List.forall_mem_append

theorem clear_heading {level l : Nat} {text : String} : Clear level [{ text, level := some l }] ↔ level < l := by
  simp [Clear]

theorem enclosing_plain {q : Piece} (hq : q.level = none) : ∀ {ps : List Piece}, enclosing (ps ++ [q]) = enclosing ps
  | [] => by simp [enclosing, hq]
  | p :: ps => by
    have hclear : ∀ level, Clear level (ps ++ [q]) ↔ Clear level ps := fun level => by
      rw [clear_append, and_iff_left]
      simp [Clear, hq]
    rw [List.cons_append, enclosing, enclosing, enclosing_plain hq]
    simp only [hclear]

theorem enclosing_plains {texts : List String} : ∀ {ps : List Piece}, enclosing (ps ++ plain texts) = enclosing ps := by
  induction texts with
  | nil => exact fun {ps} => congrArg enclosing (List.append_nil ps)
  | cons text texts ih =>
    intro ps
    rw [plain, List.map_cons, List.append_cons]
    exact ih.trans (enclosing_plain rfl)

/-- A heading is enclosed by those of a smaller level that have enclosed the piece before it. -/
theorem enclosing_heading {level : Nat} {text : String} : ∀ {ps : List Piece},
    enclosing (ps ++ [{ text, level := some level }]) = (enclosing ps).filter (fun h => h.1 < level) ++ [(level, text)]
  | [] => by simp [enclosing, Clear]
  | p :: ps => by
    rw [List.cons_append, enclosing, enclosing, enclosing_heading]
    cases p.level with
    | none => rfl
    | some l =>
      simp only [clear_append, clear_heading]
      by_cases hclear : Clear l ps
      · by_cases hlevel : l < level <;> simp [hclear, hlevel]
      · simp [hclear]

theorem mem_enclosing {h : Nat × String} : ∀ {ps : List Piece}, h ∈ enclosing ps → ∃ p ∈ ps, p.level = some h.1 ∧ p.text = h.2
  | p :: ps, hmem => by
    rw [enclosing] at hmem
    have htail : h ∈ enclosing ps → ∃ q ∈ p :: ps, q.level = some h.1 ∧ q.text = h.2 := fun hmem =>
      (mem_enclosing hmem).imp fun q hq => ⟨List.mem_cons_of_mem _ hq.1, hq.2⟩
    split at hmem
    · rename_i level hlevel
      split at hmem
      · rcases List.mem_cons.mp hmem with rfl | hmem
        · exact ⟨p, List.mem_cons_self, hlevel, rfl⟩
        · exact htail hmem
      · exact htail hmem
    · exact htail hmem

theorem enclosing_sorted : ∀ {ps : List Piece}, (enclosing ps).Pairwise fun h h' => h.1 < h'.1
  | [] => .nil
  | p :: ps => by
    rw [enclosing]
    split
    · split
      · rename_i hclear
        refine .cons (fun h hmem => ?_) enclosing_sorted
        obtain ⟨q, hq, hlevel, -⟩ := mem_enclosing hmem
        exact hclear q hq _ hlevel
      · exact enclosing_sorted
    · exact enclosing_sorted

theorem dropWhile_levels {level : Nat} : ∀ {stack : List (Nat × String)}, (stack.Pairwise fun h h' => h'.1 < h.1) →
    (stack.dropWhile fun h => level ≤ h.1) = stack.filter fun h => h.1 < level
  | [], _ => rfl
  | h :: stack, hsorted => by
    obtain ⟨hhead, htail⟩ := List.pairwise_cons.mp hsorted
    by_cases hlevel : level ≤ h.1
    · rw [List.dropWhile_cons_of_pos (by simpa using hlevel), List.filter_cons_of_neg (by simpa using hlevel),
        dropWhile_levels htail]
    · rw [List.dropWhile_cons_of_neg (by simpa using hlevel), eq_comm, List.filter_eq_self]
      refine List.forall_mem_cons.mpr ⟨by simpa using hlevel, fun h' hmem => ?_⟩
      have := hhead h' hmem
      exact decide_eq_true (by omega)

/-! ### The stack -/

theorem unitsOf_plain : ∀ {texts : List String} {before : List Piece},
    unitsOf (pathOf (enclosing before)) false false texts = headed before (plain texts)
  | [], _ => rfl
  | text :: texts, before => by
    have henclosing : enclosing (before ++ [{ text := text }]) = enclosing before := enclosing_plain rfl
    have htail := @unitsOf_plain texts (before ++ [{ text := text }])
    rw [henclosing] at htail
    have hplain : plain (text :: texts) = { text := text } :: plain texts := rfl
    rw [unitsOf, htail, hplain, headed, henclosing]
    rfl

/-- What a run of `_split_units` has of the pieces that it has read. -/
structure Traces (st : Splitter) (ps : List Piece) : Prop where
  units : st.units = headed [] ps
  stack : st.stack.reverse = enclosing ps
  named : ∀ h ∈ st.stack, h.2 ≠ ""
  pending : st.pendingSection = false

theorem intercalate_ne_empty {sep text : String} {texts : List String} (h : text ≠ "") : sep.intercalate (text :: texts) ≠ "" := by
  intro hnil
  have := congrArg String.toList hnil
  rw [String.toList_intercalate, List.map_cons] at this
  cases htexts : texts.map String.toList with
  | nil =>
    rw [htexts, List.intercalate_singleton] at this
    exact h (String.toList_inj.mp this)
  | cons cs css =>
    rw [htexts, List.intercalate_cons_cons] at this
    have hempty := (List.append_eq_nil_iff.mp (List.append_eq_nil_iff.mp this).1).1
    exact h (String.toList_inj.mp hempty)

theorem headingPath_eq {st : Splitter} (hnamed : ∀ h ∈ st.stack, h.2 ≠ "") : st.headingPath = pathOf st.stack.reverse := by
  have hnamed' : ∀ h ∈ st.stack.reverse, h.2 ≠ "" := fun h hmem => hnamed h (List.mem_reverse.mp hmem)
  rw [Splitter.headingPath]
  cases hstack : st.stack.reverse with
  | nil => rfl
  | cons h stack =>
    rw [hstack] at hnamed'
    rw [List.map_cons, if_neg (intercalate_ne_empty (hnamed' h List.mem_cons_self))]
    rfl

namespace Traces
variable {st : Splitter} {ps : List Piece}

theorem headingPath (h : Traces st ps) : st.headingPath = pathOf (enclosing ps) := by
  rw [headingPath_eq h.named, h.stack]

theorem add (h : Traces st ps) (texts : List String) : Traces (st.add texts false) (ps ++ plain texts) := by
  rw [Splitter.add_eq]
  refine ⟨?_, ?_, h.named, ?_⟩
  · rw [headed_append, List.nil_append, ← unitsOf_plain, ← h.headingPath, h.pending, h.units]
  · rw [enclosing_plains]
    exact h.stack
  · rw [h.pending, Bool.false_and]

theorem flush (h : Traces st ps) : Traces st.flush (ps ++ plain (sentences st.paragraph)) :=
  ⟨(h.add _).units, (h.add _).stack, (h.add _).named, (h.add _).pending⟩

theorem opens (h : Traces st ps) {level : Nat} {text : String} (htext : text ≠ "") :
    Traces ((st.opens level text).add [text] true) (ps ++ [{ text, level := some level }]) := by
  have hstack : (st.opens level text).stack = (level, text) :: st.stack.filter fun h => h.1 < level := by
    rw [Splitter.opens, dropWhile_levels]
    rw [← List.pairwise_reverse, h.stack]
    exact enclosing_sorted
  have hreverse : (st.opens level text).stack.reverse = enclosing (ps ++ [{ text, level := some level }]) := by
    rw [hstack, List.reverse_cons, ← List.filter_reverse, h.stack, enclosing_heading]
  have hnamed : ∀ h ∈ (st.opens level text).stack, h.2 ≠ "" := by
    rw [hstack]
    exact List.forall_mem_cons.mpr ⟨htext, fun h' hmem => h.named h' (List.mem_of_mem_filter hmem)⟩
  rw [Splitter.add_eq]
  refine ⟨?_, hreverse, hnamed, rfl⟩
  rw [headed_append, headingPath_eq hnamed, hreverse]
  exact congrArg (· ++ _) h.units

end Traces

theorem heading_ne_empty {line text : List Char} {level : Nat} (h : heading line = some (level, text)) :
    String.ofList text ≠ "" := by
  obtain ⟨marks, sp, c, cs, -, -, -, -, -, -, -, rfl⟩ := heading_some h
  intro hnil
  have := congrArg String.toList hnil
  rw [String.toList_ofList] at this
  cases this

/-- What one line adds. -/
theorem traces_line {st : Splitter} {ps : List Piece} (h : Traces st ps) (rawLine : List Char) : ∃ qs,
    Traces (st.readLine rawLine) (ps ++ qs) ∧
      ∀ lines, pieces st.paragraph (rawLine :: lines) = qs ++ pieces (st.readLine rawLine).paragraph lines := by
  cases hheading : heading (strip rawLine) with
  | some x =>
    obtain ⟨level, text⟩ := x
    refine ⟨plain (sentences st.paragraph) ++ [{ text := .ofList text, level := some level }], ?_, fun lines => ?_⟩
    · rw [Splitter.readLine_heading hheading, ← List.append_assoc]
      exact h.flush.opens (heading_ne_empty hheading)
    · rw [pieces, hheading, Splitter.readLine_heading hheading, Splitter.add_eq, List.append_assoc]
      rfl
  | none =>
    by_cases hblank : strip rawLine = []
    · refine ⟨plain (sentences st.paragraph), ?_, fun lines => ?_⟩
      · rw [Splitter.readLine_blank hblank]
        exact h.flush
      · rw [pieces, hheading, Splitter.readLine_blank hblank]
        exact if_pos hblank
    · by_cases hitem : standalone (strip rawLine) = true
      · refine ⟨plain (sentences st.paragraph) ++ plain [.ofList (strip rawLine)], ?_, fun lines => ?_⟩
        · rw [Splitter.readLine_item hheading hblank hitem, ← List.append_assoc]
          exact h.flush.add _
        · rw [pieces, hheading, Splitter.readLine_item hheading hblank hitem, Splitter.add_eq, List.append_assoc]
          exact (if_neg hblank).trans (if_pos hitem)
      · have htext := @Splitter.readLine_text st _ hheading hblank (Bool.eq_false_iff.mpr hitem)
        refine ⟨[], ?_, fun lines => ?_⟩
        · rw [htext, List.append_nil]
          exact ⟨h.units, h.stack, h.named, h.pending⟩
        · rw [pieces, hheading, htext]
          exact (if_neg hblank).trans (if_neg hitem)

theorem traces_lines : ∀ {lines : List (List Char)} {st : Splitter} {ps : List Piece}, Traces st ps →
    Traces (lines.foldl Splitter.readLine st).flush (ps ++ pieces st.paragraph lines)
  | [], _, _, h => h.flush
  | rawLine :: lines, st, ps, h => by
    obtain ⟨qs, hline, hpieces⟩ := traces_line h rawLine
    rw [List.foldl_cons, hpieces, ← List.append_assoc]
    exact traces_lines hline

/-- Each unit has the path of the headings that enclose it. -/
theorem splitUnits_headed (text : String) : splitUnits text = headed [] (pieces [] (linesOf text)) := by
  have hstart : Traces {} [] := ⟨rfl, rfl, fun _ h => absurd h List.not_mem_nil, rfl⟩
  exact (traces_lines hstart).units

/-! ### Units in a row -/

/-- Only a heading changes the path. -/
def SamePath (u v : TextUnit) : Prop := v.isHeading = false → v.heading = u.heading

theorem headed_chain : ∀ {ps before : List Piece}, (headed before ps).IsChain SamePath
  | [], _ => .nil
  | [_], _ => .singleton _
  | p :: q :: ps, before => by
    refine List.isChain_cons_cons.mpr ⟨fun hq => ?_, @headed_chain (q :: ps) _⟩
    exact congrArg pathOf (enclosing_plain (Option.isSome_eq_false_iff.mp hq |> Option.isNone_iff_eq_none.mp))

theorem headed_starts : ∀ {ps before : List Piece}, ∀ u ∈ headed before ps, u.startsSection = u.isHeading
  | _ :: _, _, _, hu => (List.mem_cons.mp hu).elim (fun hu => by rw [hu]) (headed_starts _)

/-- Units in a row without a heading among them have one path. -/
theorem path_eq : ∀ {us : List TextUnit} {u : TextUnit}, (u :: us).IsChain SamePath → (∀ x ∈ us, x.isHeading = false) →
    ∀ x ∈ us, x.heading = u.heading
  | v :: us, u, hchain, hplain, x, hx => by
    obtain ⟨hsame, hchain⟩ := List.isChain_cons_cons.mp hchain
    have hv := hsame (hplain v List.mem_cons_self)
    rcases List.mem_cons.mp hx with rfl | hx
    · exact hv
    · rw [path_eq hchain (fun y hy => hplain y (List.mem_cons_of_mem _ hy)) x hx, hv]

/-- A piece with a level comes from a line that is a heading. -/
theorem heading_of_piece {p : Piece} {level : Nat} (hlevel : p.level = some level) : ∀ {lines : List (List Char)}
    {paragraph : List String}, p ∈ pieces paragraph lines →
      ∃ line ∈ lines, ∃ text, heading (strip line) = some (level, text) ∧ p.text = .ofList text := by
  have hplain : ∀ texts, p ∉ plain texts := fun texts hmem => by
    obtain ⟨text, -, rfl⟩ := List.mem_map.mp hmem
    cases hlevel
  intro lines
  induction lines with
  | nil => exact fun hp => absurd hp (hplain _)
  | cons rawLine lines ih =>
    intro paragraph hp
    have hrest : ∀ {paragraph}, p ∈ pieces paragraph lines → ∃ line ∈ rawLine :: lines, ∃ text,
        heading (strip line) = some (level, text) ∧ p.text = .ofList text := fun hp =>
      (ih hp).imp fun line h => ⟨List.mem_cons_of_mem _ h.1, h.2⟩
    rw [pieces] at hp
    split at hp
    · rename_i hheading
      rcases List.mem_cons.mp ((List.mem_append.mp hp).resolve_left (hplain _)) with rfl | hp
      · obtain rfl := Option.some.inj hlevel
        exact ⟨rawLine, List.mem_cons_self, _, hheading, rfl⟩
      · exact hrest hp
    · split at hp
      · exact hrest ((List.mem_append.mp hp).resolve_left (hplain _))
      · split at hp
        · rcases List.mem_cons.mp ((List.mem_append.mp hp).resolve_left (hplain _)) with rfl | hp
          · cases hlevel
          · exact hrest hp
        · exact hrest hp

theorem mem_headed : ∀ {ps before : List Piece} {u : TextUnit}, u ∈ headed before ps →
    ∃ qs ⊆ before ++ ps, u.heading = pathOf (enclosing qs)
  | p :: ps, before, u, hu => by
    rcases List.mem_cons.mp hu with rfl | hu
    · exact ⟨before ++ [p], by simp, rfl⟩
    · obtain ⟨qs, hqs, hpath⟩ := mem_headed hu
      exact ⟨qs, by rwa [List.append_cons], hpath⟩

theorem path_ne_empty {text path : String} {u : TextUnit} (hu : u ∈ splitUnits text) (hpath : u.heading = some path) :
    path ≠ "" := by
  rw [splitUnits_headed] at hu
  obtain ⟨qs, hqs, hheading⟩ := mem_headed hu
  rw [hpath] at hheading
  cases henclosing : enclosing qs with
  | nil => rw [henclosing] at hheading; cases hheading
  | cons h hs =>
    rw [henclosing] at hheading
    obtain ⟨p, hp, hlevel, htext⟩ := @mem_enclosing h qs (by rw [henclosing]; exact List.mem_cons_self)
    rw [Option.some.inj hheading, List.map_cons]
    refine intercalate_ne_empty ?_
    obtain ⟨line, -, text, hheading, hp⟩ := heading_of_piece hlevel (hqs hp)
    rw [← htext, hp]
    exact heading_ne_empty hheading

namespace SentenceChunker
variable {self : SentenceChunker} {units : List TextUnit}

/-- The units of a block's chunks. -/
def unitsIn (chunker : SentenceChunker) : Block → List TextUnit
  | .split _ u => [u]
  | .whole carried source => carried ++ source.filter chunker.keeps

theorem keeps_structured (hstructured : self.structured = true) {u : TextUnit} : self.keeps u = !u.isHeading := by
  rw [keeps, hstructured, Bool.true_and]

/-- A stretch of the input is some headings, and then units that are not. -/
theorem formed_source (hstructured : self.structured = true) {carried source : List TextUnit}
    (hformed : self.Formed (.whole carried source)) (hstarts : ∀ u ∈ source, u.startsSection = u.isHeading) :
    ∃ skipped, source = skipped ++ source.filter self.keeps ∧ ∀ x ∈ skipped, x.startsSection = true := by
  obtain ⟨⟨skipped, first, rest, rfl, hskipped, hfirst, hrest⟩, -, -⟩ := hformed
  refine ⟨skipped, ?_, fun x hx => ?_⟩
  · have hall : (first :: rest).filter self.keeps = first :: rest := by
      refine List.filter_eq_self.mpr (List.forall_mem_cons.mpr ⟨hfirst, fun x hx => ?_⟩)
      rw [keeps_structured hstructured, ← hstarts x (by simp [hx]), hrest hstructured x hx]
      rfl
    rw [List.filter_append, filter_skipped hskipped, hall]
    rfl
  · have := hskipped x hx
    rw [keeps_structured hstructured, ← hstarts x (by simp [hx])] at this
    simpa using this

/-- Of a block's units it is known that they are the last that have been read, and that none is a heading. -/
structure Trailing (chunker : SentenceChunker) (before : List TextUnit) (b : Block) : Prop where
  suffix : chunker.unitsIn b <:+ before
  plain : ∀ u ∈ chunker.unitsIn b, u.isHeading = false

theorem trailing_next (hstructured : self.structured = true) {before : List TextUnit} {previous : Option Block} {b : Block}
    (hprevious : ∀ b' ∈ previous, self.Trailing before b') (hformed : self.Formed b) (hcarries : self.Carries previous b)
    (hstarts : ∀ u ∈ b.source, u.startsSection = u.isHeading) : self.Trailing (before ++ b.source) b := by
  cases b with
  | split skipped u =>
    refine ⟨⟨before ++ skipped, ?_⟩, List.forall_mem_singleton.mpr ?_⟩
    · rw [unitsIn, Block.source, List.append_assoc]
    · simpa [keeps_structured hstructured] using hformed.2.1
  | whole carried source =>
    obtain ⟨skipped, hsource, hskipped⟩ := formed_source hstructured hformed hstarts
    have hnews : ∀ u ∈ source.filter self.keeps, u.isHeading = false := fun u hu => by
      simpa [keeps_structured hstructured] using (List.mem_filter.mp hu).2
    have hnone : carried = [] → self.Trailing (before ++ source) (.whole carried source) := by
      rintro rfl
      refine ⟨⟨before ++ skipped, ?_⟩, hnews⟩
      rw [unitsIn, List.nil_append, List.append_assoc, ← hsource]
    cases previous with
    | none => exact hnone hcarries
    | some b' =>
      cases b' with
      | split skipped' u' => exact hnone hcarries
      | whole carried' source' =>
        obtain ⟨skipped', first, rest, hsplit, -, -, hcarried⟩ := hcarries
        split at hcarried
        · exact hnone hcarried
        · rename_i hcontinues
          obtain ⟨⟨t, ht⟩, hplain⟩ := hprevious _ rfl
          obtain ⟨t', ht'⟩ := hcarried.1.suffix
          have hnil : skipped = [] := by
            cases skipped with
            | nil => rfl
            | cons x xs =>
              refine absurd ⟨hstructured, x, ?_, hskipped x List.mem_cons_self⟩ hcontinues
              have hheads := hsplit.symm.trans hsource
              rw [List.append_cons] at hheads
              cases h : skipped' ++ [first] with
              | nil => exact absurd h (by simp)
              | cons y ys =>
                rw [h] at hheads
                rw [(List.cons.inj hheads).1]
                exact List.mem_cons_self
          rw [hnil, List.nil_append] at hsource
          refine ⟨⟨t ++ t', ?_⟩, fun u hu => (List.mem_append.mp hu).elim (fun hu => hplain u ?_) (hnews u)⟩
          · rw [unitsIn, Block.source, ← hsource, ← ht, unitsIn, ← ht']
            simp only [List.append_assoc]
          · rw [unitsIn, ← ht']
            exact List.mem_append_right _ hu

theorem trailing_row (hstructured : self.structured = true) : ∀ {bs : List Block} {before : List TextUnit}
    {previous : Option Block}, self.Linked previous bs → (∀ b ∈ bs, self.Formed b) →
      (∀ b' ∈ previous, self.Trailing before b') → (∀ u ∈ bs.flatMap Block.source, u.startsSection = u.isHeading) →
        ∀ b ∈ bs, self.unitsIn b <:+: before ++ bs.flatMap Block.source ∧ ∀ u ∈ self.unitsIn b, u.isHeading = false
  | b :: bs, before, previous, hlinked, hformed, hprevious, hstarts, b', hb' => by
    rw [List.flatMap_cons] at hstarts ⊢
    obtain ⟨hstarts, hstarts'⟩ := List.forall_mem_append.mp hstarts
    obtain ⟨hformed, hformed'⟩ := List.forall_mem_cons.mp hformed
    have hnext := trailing_next hstructured hprevious hformed hlinked.1 hstarts
    rw [← List.append_assoc]
    rcases List.mem_cons.mp hb' with rfl | hb'
    · exact ⟨hnext.suffix.isInfix.trans (List.prefix_append _ _).isInfix, hnext.plain⟩
    · refine trailing_row hstructured hlinked.2 hformed' ?_ hstarts' b' hb'
      rintro _ ⟨⟩
      exact hnext

/-- A body that some units are put into: their texts, or a run of the words of one that is too long. -/
def Holds (chunker : SentenceChunker) (us : List TextUnit) (body : String) : Prop :=
  body = bodyOf us ∨ ∃ u, us = [u] ∧ chunker.maxWords < u.size ∧
    ∃ run ∈ slices chunker.maxWords (words u.text), body = " ".intercalate run

/-- The units of a chunk: some in a row, none of them a heading, all of the path that the chunk records. -/
structure Under (chunker : SentenceChunker) (units us : List TextUnit) (x : Option String × String) : Prop where
  row : us <:+: units
  some : us ≠ []
  plain : ∀ u ∈ us, u.isHeading = false
  path : ∀ u ∈ us, u.heading = x.1
  body : chunker.Holds us x.2

theorem render_under {b : Block} (hformed : self.Formed b) (hchain : units.IsChain SamePath)
    (hrow : self.unitsIn b <:+: units) (hplain : ∀ u ∈ self.unitsIn b, u.isHeading = false) {x : Option String × String}
    (hx : x ∈ self.render b) : self.Under units (self.unitsIn b) x := by
  cases b with
  | split skipped u =>
    obtain ⟨run, hrun, rfl⟩ := List.mem_map.mp hx
    exact ⟨hrow, List.cons_ne_nil _ _, hplain, List.forall_mem_singleton.mpr rfl, .inr ⟨u, rfl, hformed.2.2, run, hrun, rfl⟩⟩
  | whole carried source =>
    have hnews := Packed.news_ne_nil hformed
    have hbody : self.unitsIn (.whole carried source) ≠ [] := List.append_ne_nil_of_right_ne_nil _ hnews
    obtain rfl := List.mem_singleton.mp hx
    refine ⟨hrow, hbody, hplain, ?_, .inl rfl⟩
    -- the units stand in a row, so the first of the new ones has the path of all
    obtain ⟨u, us, hus⟩ := List.exists_cons_of_ne_nil hbody
    obtain ⟨v, vs, hvs⟩ := List.exists_cons_of_ne_nil hnews
    have hchain' := hchain.infix hrow
    rw [hus] at hchain' hplain
    have hsame : ∀ y ∈ u :: us, y.heading = u.heading := List.forall_mem_cons.mpr
      ⟨rfl, path_eq hchain' fun y hy => hplain y (List.mem_cons_of_mem _ hy)⟩
    have hv : v ∈ u :: us := by
      rw [← hus, unitsIn, hvs]
      exact List.mem_append_right _ List.mem_cons_self
    intro y hy
    rw [hus] at hy
    rw [hsame y hy, hvs]
    exact (hsame v hv).symm

/-- The blocks that the units of a text are packed into. -/
theorem pack_under (hstructured : self.structured = true) (text : String) : ∃ blocks,
    self.pack (splitUnits text) = blocks.flatMap self.render ∧ self.Packs (splitUnits text) blocks ∧
      ∀ b ∈ blocks, ∀ x ∈ self.render b, self.Under (splitUnits text) (self.unitsIn b) x := by
  obtain ⟨blocks, hpack, hpacks⟩ := packs self (splitUnits text)
  obtain ⟨tail, htail, -⟩ := hpacks.covers
  have hstarts : ∀ u ∈ blocks.flatMap Block.source, u.startsSection = u.isHeading := fun u hu => by
    refine @headed_starts (pieces [] (linesOf text)) [] u ?_
    rw [← splitUnits_headed, ← htail]
    exact List.mem_append_left _ hu
  have hchain : (splitUnits text).IsChain SamePath := by
    rw [splitUnits_headed]
    exact headed_chain
  refine ⟨blocks, hpack, hpacks, fun b hb x hx => ?_⟩
  obtain ⟨hrow, hplain⟩ := @trailing_row self hstructured blocks [] none hpacks.linked hpacks.formed nofun hstarts b hb
  refine render_under (hpacks.formed b hb) hchain ?_ hplain hx
  rw [← htail]
  exact hrow.trans (List.prefix_append _ _).isInfix

/-- The heading path ends the prefix of a chunk, which can only have the title before it. -/
theorem contextPrefix_some {title : Option String} {path : String} (hpath : path ≠ "") : contextPrefix title (some path) = path ∨
    ∃ t, title = some t ∧ contextPrefix title (some path) = t ++ " > " ++ path := by
  have hheading : (some path).filter (fun h => h ≠ "") = some path := by simp [hpath]
  simp only [contextPrefix, hheading]
  split
  · exact .inl (by simp)
  · cases htitle : title.filter fun t => t ≠ "" with
    | none => exact .inl (by simp)
    | some t =>
      refine .inr ⟨t, (Option.filter_eq_some_iff.mp htitle).1, ?_⟩
      rw [← String.toList_inj, String.toList_append, String.toList_append, String.toList_intercalate]
      simp [List.intercalate_cons_cons]

/-- Every unit stands under the headings that enclose it, and a chunk under those of all its units. -/
structure Headings (chunker : SentenceChunker) (sections : List Section) (title : Option String) : Prop where
  units : ∀ text, splitUnits text = headed [] (pieces [] (linesOf text))
  chunks : ∀ c ∈ chunker.chunk sections title, ∃ s ∈ sections, ∃ us body,
    chunker.Under (splitUnits s.text) us (c.heading, body) ∧ c.text = chunker.chunkText title c.heading body
  prefixes : ∀ c ∈ chunker.chunk sections title, ∀ path, c.heading = some path → contextPrefix title c.heading = path ∨
    ∃ t, title = some t ∧ contextPrefix title c.heading = t ++ " > " ++ path

theorem headings (chunker : SentenceChunker) (hstructured : chunker.structured = true) (sections : List Section)
    (title : Option String) : chunker.Headings sections title := by
  have hchunks : ∀ c ∈ chunker.chunk sections title, ∃ s ∈ sections, ∃ us body,
      chunker.Under (splitUnits s.text) us (c.heading, body) ∧ c.text = chunker.chunkText title c.heading body := by
    intro c hc
    obtain ⟨s, hs, x, hx, htext, hheading⟩ := mem_chunk hc
    obtain ⟨blocks, hpack, -, hunder⟩ := pack_under hstructured s.text
    rw [hpack] at hx
    obtain ⟨b, hb, hx⟩ := List.mem_flatMap.mp hx
    rw [htext, hheading]
    exact ⟨s, hs, _, x.2, hunder b hb x hx, rfl⟩
  refine ⟨splitUnits_headed, hchunks, fun c hc path hpath => ?_⟩
  obtain ⟨s, -, us, body, hus, -⟩ := hchunks c hc
  obtain ⟨u, hu⟩ := List.exists_mem_of_ne_nil _ hus.some
  rw [hpath]
  refine contextPrefix_some (path_ne_empty (hus.row.subset hu) ?_)
  rw [hus.path u hu, hpath]

theorem headings_sections : Headings { maxWords := 40, overlapWords := 8, structured := true, positive := by decide, fits := by decide }
    [{ text := "# Guide\nIntro.\n## Setup\nRun it.\n# End\nBye." }] (some "Guide") := headings _ rfl _ _

end SentenceChunker
end NexusGate.Rag
