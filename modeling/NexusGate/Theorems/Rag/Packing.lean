import NexusGate.Theorems.Rag.Windows

/-! # Packing sentences

What `_pack` puts out falls into blocks: the runs of a unit that is too long, or one chunk with some units carried over
from the block before and the new units of a stretch of the input. The stretches of all blocks are the input, but for
headings at its end that are left out. -/

namespace NexusGate.Rag
open Text

/-! ### Sizes -/

@[simp] theorem totalSize_nil : totalSize [] = 0 := rfl

@[simp] theorem totalSize_cons {u : TextUnit} {us : List TextUnit} : totalSize (u :: us) = u.size + totalSize us := List.sum_cons

@[simp] theorem totalSize_append {us vs : List TextUnit} : totalSize (us ++ vs) = totalSize us + totalSize vs := by
  rw [totalSize, List.map_append, List.sum_append]
  rfl

theorem totalSize_reverse {us : List TextUnit} : totalSize us.reverse = totalSize us := by
  rw [totalSize, List.map_reverse, List.sum_reverse]
  rfl

theorem words_bodyOf {us : List TextUnit} : (words (bodyOf us)).length = totalSize us := by
  rw [bodyOf, words_intercalate (c := '\n') rfl (by decide), List.flatMap_map, List.length_flatMap]
  rfl

/-! ### Overlap -/

/-- The units that are carried over: as many of the last ones as the budget has room for. -/
structure LongestSuffix (carried previous : List TextUnit) (budget : Nat) : Prop where
  suffix : carried <:+ previous
  fits : totalSize carried ≤ budget
  longest : ∀ s, s <:+ previous → totalSize s ≤ budget → s.length ≤ carried.length

theorem carry_spec : ∀ {us : List TextUnit} {budget : Nat} {carried : List TextUnit}, ∃ n ≤ us.length,
    carry budget carried us = (us.take n).reverse ++ carried ∧ totalSize (us.take n) ≤ budget ∧
      ∀ m ≤ us.length, totalSize (us.take m) ≤ budget → m ≤ n
  | [], _, _ => ⟨0, le_rfl, rfl, Nat.zero_le _, fun _ hm _ => hm⟩
  | u :: us, budget, carried => by
    rw [carry]
    split
    · rename_i hu
      refine ⟨0, Nat.zero_le _, rfl, Nat.zero_le _, fun m _ hm => ?_⟩
      cases m with
      | zero => exact le_rfl
      | succ m =>
        rw [List.take_succ_cons, totalSize_cons] at hm
        omega
    · obtain ⟨n, hn, hcarry, hfits, hlongest⟩ := @carry_spec us (budget - u.size) (u :: carried)
      refine ⟨n + 1, Nat.succ_le_succ hn, ?_, ?_, fun m hlength hm => ?_⟩
      · rw [hcarry, List.take_succ_cons, List.reverse_cons, List.append_assoc, List.singleton_append]
      · rw [List.take_succ_cons, totalSize_cons]
        omega
      · cases m with
        | zero => exact Nat.zero_le _
        | succ m =>
          rw [List.take_succ_cons, totalSize_cons] at hm
          exact Nat.succ_le_succ (hlongest m (Nat.le_of_succ_le_succ hlength) (by omega))

namespace SentenceChunker
variable {self : SentenceChunker}

theorem overlap_longest {previous : List TextUnit} {incoming : Nat} : LongestSuffix (self.overlap previous incoming) previous
    (min self.overlapWords (self.maxWords - incoming)) := by
  obtain ⟨n, hn, hcarry, hfits, hlongest⟩ :=
    @carry_spec previous.reverse (min self.overlapWords (self.maxWords - incoming)) []
  have hoverlap : self.overlap previous incoming = (previous.reverse.take n).reverse :=
    hcarry.trans (List.append_nil _)
  rw [hoverlap]
  refine ⟨?_, ?_, fun s hs hbudget => ?_⟩
  · exact List.reverse_prefix.mp (by rw [List.reverse_reverse]; exact List.take_prefix ..)
  · rwa [totalSize_reverse]
  · rw [List.length_reverse, List.length_take, Nat.min_eq_left hn]
    refine hlongest s.length ?_ ?_
    · rw [List.length_reverse]
      exact hs.length_le
    · have hprefix : s.reverse <+: previous.reverse := List.reverse_prefix.mpr hs
      have htake := List.prefix_iff_eq_take.mp hprefix
      rw [List.length_reverse] at htake
      rwa [← htake, totalSize_reverse]

/-! ### Blocks -/

/-- The unit is put into a body. -/
def keeps (chunker : SentenceChunker) (u : TextUnit) : Bool := !(chunker.structured && u.isHeading)

end SentenceChunker

/-- `source` is the stretch of the input that a block stands for; the units in front of a unit that is too long are
    headings that are left out. -/
inductive Block
  | split (skipped : List TextUnit) (u : TextUnit)
  | whole (carried source : List TextUnit)

/-- The units that a block was made from. -/
def Block.source : Block → List TextUnit
  | .split skipped u => skipped ++ [u]
  | .whole _ source => source

namespace SentenceChunker

/-- The new units of a block. -/
def news (chunker : SentenceChunker) (b : Block) : List TextUnit := b.source.filter chunker.keeps

/-- The chunks of a block: the heading of its first new unit, and its text. -/
def render (chunker : SentenceChunker) : Block → List (Option String × String)
  | .split _ u => chunker.hardSplit u
  | .whole carried source =>
    [((source.filter chunker.keeps).head?.bind TextUnit.heading, bodyOf (carried ++ source.filter chunker.keeps))]

/-- What a block is made of. -/
def Formed (chunker : SentenceChunker) : Block → Prop
  | .split skipped u => (∀ x ∈ skipped, chunker.keeps x = false) ∧ chunker.keeps u = true ∧ chunker.maxWords < u.size
  | .whole carried source =>
    (∃ skipped first rest, source = skipped ++ first :: rest ∧ (∀ x ∈ skipped, chunker.keeps x = false) ∧
      chunker.keeps first = true ∧ (chunker.structured = true → ∀ x ∈ rest, x.startsSection = false)) ∧
    (∀ u ∈ source, chunker.keeps u = true → u.size ≤ chunker.maxWords) ∧
    totalSize (carried ++ source.filter chunker.keeps) ≤ chunker.maxWords

/-- What a block carries over: nothing after the runs of a unit, nor, in structured mode, over the start of a section;
    else the longest suffix of the chunk before that fits the overlap and leaves room for the next unit, which is
    never all of it. -/
def Carries (chunker : SentenceChunker) (previous : Option Block) : Block → Prop
  | .split _ _ => True
  | .whole carried source =>
    match previous with
    | some (.whole carried' source') =>
      ∃ skipped first rest, source = skipped ++ first :: rest ∧ (∀ x ∈ skipped, chunker.keeps x = false) ∧
        chunker.keeps first = true ∧
        if chunker.structured = true ∧ ∃ x ∈ skipped ++ [first], x.startsSection = true then carried = []
        else LongestSuffix carried (carried' ++ source'.filter chunker.keeps)
            (min chunker.overlapWords (chunker.maxWords - first.size)) ∧
          carried ≠ carried' ++ source'.filter chunker.keeps
    | _ => carried = []

/-- Every block carries over what it may from the one before. -/
def Linked (chunker : SentenceChunker) : Option Block → List Block → Prop
  | _, [] => True
  | previous, b :: bs => chunker.Carries previous b ∧ Linked chunker (some b) bs

variable {self : SentenceChunker}

theorem linked_concat {b : Block} : ∀ {bs : List Block} {previous : Option Block},
    self.Linked previous (bs ++ [b]) ↔ self.Linked previous bs ∧ self.Carries (bs.getLast?.or previous) b
  | [], _ => and_comm
  | x :: bs, previous => by
    have hlast : (x :: bs).getLast?.or previous = bs.getLast?.or (some x) := by
      cases h : bs.getLast? with
      | none => rw [List.getLast?_eq_none_iff.mp h]; rfl
      | some y => rw [List.getLast?_cons, h]; rfl
    rw [List.cons_append, Linked, Linked, linked_concat, hlast, and_assoc]

/-! ### The loop -/

/-- How far a run of `_pack` has come: the blocks that are finished, the stretch of the current one, and the headings
    that have been left out since. -/
structure Packed (chunker : SentenceChunker) (done : List TextUnit) (p : Packing) (blocks : List Block)
    (carried source pending : List TextUnit) : Prop where
  out : p.out = blocks.flatMap chunker.render
  current : p.current = carried ++ source.filter chunker.keeps
  fresh : p.fresh = (source.filter chunker.keeps).length
  covers : blocks.flatMap Block.source ++ (source ++ pending) = done
  skipped : ∀ x ∈ pending, chunker.keeps x = false
  formed : ∀ b ∈ blocks, chunker.Formed b
  linked : chunker.Linked none blocks
  status : (source = [] ∧ carried = []) ∨
    (chunker.Formed (.whole carried source) ∧ chunker.Carries blocks.getLast? (.whole carried source) ∧
      (chunker.structured = true → ∀ x ∈ pending, x.startsSection = false))

/-- Nothing may be carried over to the next block. -/
def Cleared (chunker : SentenceChunker) (blocks : List Block) (pending : List TextUnit) : Prop :=
  (∀ carried source, blocks.getLast? ≠ some (.whole carried source)) ∨
    (chunker.structured = true ∧ ∃ x ∈ pending, x.startsSection = true)

theorem filter_skipped {us : List TextUnit} (h : ∀ x ∈ us, self.keeps x = false) : us.filter self.keeps = [] :=
  List.filter_eq_nil_iff.mpr fun x hx => by simp [h x hx]

namespace Packed
variable {done carried source pending : List TextUnit} {blocks : List Block} {p : Packing}

theorem news_ne_nil {carried source : List TextUnit} (h : self.Formed (.whole carried source)) :
    source.filter self.keeps ≠ [] := by
  obtain ⟨⟨skipped, first, rest, rfl, -, hfirst, -⟩, -, -⟩ := h
  rw [List.filter_append, List.filter_cons_of_pos hfirst]
  simp

/-- The current block comes to its end. -/
theorem emit (h : self.Packed done p blocks carried source pending) : ∃ blocks',
    self.Packed done { out := p.emit } blocks' [] [] pending ∧
      ((source = [] ∧ blocks' = blocks) ∨ blocks' = blocks ++ [.whole carried source]) := by
  rcases h.status with ⟨rfl, rfl⟩ | ⟨hformed, hcarries, -⟩
  · have hemit : p.emit = p.out := if_pos h.fresh
    exact ⟨blocks, ⟨hemit.trans h.out, rfl, rfl, h.covers, h.skipped, h.formed, h.linked, .inl ⟨rfl, rfl⟩⟩, .inl ⟨rfl, rfl⟩⟩
  · have hne := news_ne_nil hformed
    have hfresh : p.fresh ≠ 0 := by rw [h.fresh]; exact List.length_pos_iff.mpr hne |>.ne'
    have hhead : p.current[p.current.length - p.fresh]? = (source.filter self.keeps).head? := by
      rw [h.current, h.fresh, List.length_append, Nat.add_sub_cancel, List.getElem?_append_right le_rfl, Nat.sub_self,
        List.head?_eq_getElem?]
    have hemit : p.emit = blocks.flatMap self.render ++ self.render (.whole carried source) := by
      rw [Packing.emit, if_neg hfresh, hhead, h.out, h.current]
      rfl
    refine ⟨_, ⟨?_, rfl, rfl, ?_, h.skipped, ?_, ?_, .inl ⟨rfl, rfl⟩⟩, .inr rfl⟩
    · rw [List.flatMap_append, List.flatMap_singleton]
      exact hemit
    · rw [List.flatMap_append, List.flatMap_singleton, List.append_assoc, List.nil_append]
      exact h.covers
    · exact List.forall_mem_append.mpr ⟨h.formed, List.forall_mem_singleton.mpr hformed⟩
    · exact linked_concat.mpr ⟨h.linked, by rwa [Option.or_none]⟩

/-- The start of a section ends the current block, in structured mode. -/
theorem opensSection (h : self.Packed done p blocks carried source pending) (hcleared : source = [] → self.Cleared blocks pending)
    (u : TextUnit) : ∃ blocks carried source,
    self.Packed done (if self.structured ∧ u.startsSection ∧ p.current ≠ [] then { out := p.emit } else p) blocks carried
        source pending ∧
      (source = [] → self.Cleared blocks (pending ++ [u])) ∧
      (self.structured = true → u.startsSection = true → source = []) := by
  split
  · rename_i hbreak
    obtain ⟨blocks', h', -⟩ := h.emit
    exact ⟨blocks', [], [], h', fun _ => .inr ⟨hbreak.1, u, by simp, hbreak.2.1⟩, fun _ _ => rfl⟩
  · rename_i hbreak
    refine ⟨blocks, carried, source, h, fun hsource => ?_, fun hstructured hstarts => ?_⟩
    · refine (hcleared hsource).imp id fun ⟨hstructured, x, hx, hstarts⟩ => ?_
      exact ⟨hstructured, x, List.mem_append_left _ hx, hstarts⟩
    · rcases h.status with ⟨hsource, -⟩ | ⟨hformed, -, -⟩
      · exact hsource
      · have hcurrent : p.current = [] := by
          by_contra hcurrent
          exact hbreak ⟨hstructured, hstarts, hcurrent⟩
        rw [h.current] at hcurrent
        exact absurd (List.append_eq_nil_iff.mp hcurrent).2 (news_ne_nil hformed)

/-- A heading is left out. -/
theorem skip (h : self.Packed done p blocks carried source pending) {u : TextUnit} (hu : self.keeps u = false)
    (hstarts : source ≠ [] → self.structured = true → u.startsSection = false) :
    self.Packed (done ++ [u]) p blocks carried source (pending ++ [u]) where
  out := h.out
  current := h.current
  fresh := h.fresh
  covers := by rw [← h.covers]; simp only [List.append_assoc]
  skipped := List.forall_mem_append.mpr ⟨h.skipped, List.forall_mem_singleton.mpr hu⟩
  formed := h.formed
  linked := h.linked
  status := by
    rcases h.status with hsource | ⟨hformed, hcarries, hpending⟩
    · exact .inl hsource
    · refine .inr ⟨hformed, hcarries, fun hstructured => ?_⟩
      refine List.forall_mem_append.mpr ⟨hpending hstructured, List.forall_mem_singleton.mpr (hstarts ?_ hstructured)⟩
      rintro rfl
      exact news_ne_nil hformed rfl

/-- A unit that is too long ends the current block, and is one of its own. -/
theorem hardSplit (h : self.Packed done p blocks carried source pending) {u : TextUnit} (hu : self.keeps u = true)
    (hlong : self.maxWords < u.size) : ∃ blocks, self.Packed (done ++ [u]) { out := p.emit ++ self.hardSplit u } blocks [] [] [] ∧
      self.Cleared blocks [] := by
  obtain ⟨blocks', h', -⟩ := h.emit
  refine ⟨blocks' ++ [.split pending u], ⟨?_, rfl, rfl, ?_, nofun, ?_, ?_, .inl ⟨rfl, rfl⟩⟩, .inl fun c s hlast => ?_⟩
  · rw [List.flatMap_append, List.flatMap_singleton, ← h'.out]
    rfl
  · rw [← h'.covers, List.flatMap_append, List.flatMap_singleton, Block.source]
    simp only [List.append_assoc, List.nil_append, List.append_nil]
  · exact List.forall_mem_append.mpr ⟨h'.formed, List.forall_mem_singleton.mpr ⟨h'.skipped, hu, hlong⟩⟩
  · exact linked_concat.mpr ⟨h'.linked, trivial⟩
  · rw [List.getLast?_concat] at hlast
    cases hlast

theorem filter_source (hpending : ∀ x ∈ pending, self.keeps x = false) {u : TextUnit} (hu : self.keeps u = true) :
    (source ++ (pending ++ [u])).filter self.keeps = source.filter self.keeps ++ [u] := by
  rw [List.filter_append, List.filter_append, filter_skipped hpending, List.filter_cons_of_pos hu]
  rfl

/-- A unit for which there is no room ends the current block, and begins one with what is carried over. -/
theorem overflow (h : self.Packed done p blocks carried source pending) {u : TextUnit} (hu : self.keeps u = true)
    (hsize : u.size ≤ self.maxWords) (hcurrent : p.current ≠ []) (hfull : self.maxWords < totalSize p.current + u.size)
    (hstarts : self.structured = true → u.startsSection = true → source = []) : ∃ blocks carried,
    self.Packed (done ++ [u]) { out := p.emit, current := self.overlap p.current u.size ++ [u], fresh := 1 } blocks carried
      (pending ++ [u]) [] := by
  obtain ⟨blocks', h', hblocks⟩ := h.emit
  rcases h.status with ⟨rfl, rfl⟩ | ⟨hformed, -, hpending⟩
  · exact absurd h.current hcurrent
  have hsource : source ≠ [] := by
    rintro rfl
    exact news_ne_nil hformed rfl
  obtain rfl : blocks' = blocks ++ [.whole carried source] := hblocks.resolve_left fun hnil => hsource hnil.1
  have hnews : (pending ++ [u]).filter self.keeps = [u] := @filter_source self [] pending h.skipped u hu
  have hlongest := @overlap_longest self p.current u.size
  have hroom : totalSize (self.overlap p.current u.size) + u.size ≤ self.maxWords := by
    have := hlongest.fits
    omega
  refine ⟨_, self.overlap p.current u.size, ⟨h'.out, ?_, ?_, ?_, nofun, h'.formed, h'.linked, .inr ⟨?_, ?_, nofun⟩⟩⟩
  · rw [hnews]
  · rw [hnews]
    rfl
  · rw [← h'.covers, List.append_nil, List.append_assoc]
    rfl
  · refine ⟨⟨pending, u, [], rfl, h.skipped, hu, nofun⟩, fun x hx hkeeps => ?_, ?_⟩
    · rcases List.mem_append.mp hx with hx | hx
      · exact absurd hkeeps (by simp [h.skipped x hx])
      · rwa [List.mem_singleton.mp hx]
    · rw [hnews, totalSize_append, totalSize_cons, totalSize_nil]
      omega
  · rw [List.getLast?_concat]
    refine ⟨pending, u, [], rfl, h.skipped, hu, ?_⟩
    rw [if_neg ?_]
    · rw [← h.current]
      refine ⟨hlongest, fun hwhole => ?_⟩
      rw [hwhole] at hroom
      omega
    · rintro ⟨hstructured, x, hx, hx'⟩
      rcases List.mem_append.mp hx with hx | hx
      · exact absurd hx' (by simp [hpending hstructured x hx])
      · rw [List.mem_singleton.mp hx] at hx'
        exact hsource (hstarts hstructured hx')

/-- A unit begins a block when there is none. -/
theorem begins (h : self.Packed done p blocks carried [] pending) {u : TextUnit} (hu : self.keeps u = true)
    (hsize : u.size ≤ self.maxWords) (hcleared : self.Cleared blocks (pending ++ [u])) :
    self.Packed (done ++ [u]) { p with current := p.current ++ [u], fresh := p.fresh + 1 } blocks [] (pending ++ [u]) [] := by
  have hnews : (pending ++ [u]).filter self.keeps = [u] := @filter_source self [] pending h.skipped u hu
  obtain rfl : carried = [] := h.status.elim And.right fun hstatus => absurd rfl (news_ne_nil hstatus.1)
  refine ⟨h.out, ?_, ?_, ?_, nofun, h.formed, h.linked, .inr ⟨?_, ?_, nofun⟩⟩
  · rw [hnews, h.current]
    rfl
  · rw [hnews, h.fresh]
    rfl
  · rw [← h.covers, List.append_nil, List.append_assoc]
    rfl
  · refine ⟨⟨pending, u, [], rfl, h.skipped, hu, nofun⟩, fun x hx hkeeps => ?_, ?_⟩
    · rcases List.mem_append.mp hx with hx | hx
      · exact absurd hkeeps (by simp [h.skipped x hx])
      · rwa [List.mem_singleton.mp hx]
    · rw [hnews, List.nil_append, totalSize_cons, totalSize_nil]
      omega
  · cases hlast : blocks.getLast? with
    | none => rfl
    | some b =>
      cases b with
      | split skipped u' => rfl
      | whole carried' source' =>
        refine ⟨pending, u, [], rfl, h.skipped, hu, ?_⟩
        rw [if_pos (hcleared.resolve_left fun hwhole => hwhole carried' source' hlast)]

/-- A unit for which there is room is added to the current block. -/
theorem appends (h : self.Packed done p blocks carried source pending) {u : TextUnit} (hu : self.keeps u = true)
    (hsource : source ≠ []) (hroom : totalSize p.current + u.size ≤ self.maxWords)
    (hstarts : self.structured = true → u.startsSection = true → source = []) :
    self.Packed (done ++ [u]) { p with current := p.current ++ [u], fresh := p.fresh + 1 } blocks carried
      (source ++ (pending ++ [u])) [] := by
  have hnews := @filter_source self source pending h.skipped u hu
  obtain ⟨hformed, hcarries, hpending⟩ := h.status.resolve_left fun hstatus => hsource hstatus.1
  obtain ⟨⟨skipped, first, rest, hsplit, hskipped, hfirst, hrest⟩, hsizes, -⟩ := hformed
  have hsplit' : source ++ (pending ++ [u]) = skipped ++ first :: (rest ++ (pending ++ [u])) := by
    rw [hsplit, List.append_assoc]
    rfl
  refine ⟨h.out, ?_, ?_, ?_, nofun, h.formed, h.linked, .inr ⟨⟨?_, ?_, ?_⟩, ?_, nofun⟩⟩
  · rw [hnews, h.current, List.append_assoc]
  · rw [hnews, h.fresh, List.length_append]
    rfl
  · rw [← h.covers, List.append_nil]
    simp only [List.append_assoc]
  · refine ⟨skipped, first, _, hsplit', hskipped, hfirst, fun hstructured x hx => ?_⟩
    rcases List.mem_append.mp hx with hx | hx
    · exact hrest hstructured x hx
    · rcases List.mem_append.mp hx with hx | hx
      · exact hpending hstructured x hx
      · rw [List.mem_singleton.mp hx]
        exact Bool.eq_false_iff.mpr fun hu' => hsource (hstarts hstructured hu')
  · intro x hx hkeeps
    rcases List.mem_append.mp hx with hx | hx
    · exact hsizes x hx hkeeps
    · rcases List.mem_append.mp hx with hx | hx
      · exact absurd hkeeps (by simp [h.skipped x hx])
      · rw [List.mem_singleton.mp hx]
        omega
  · rw [hnews, ← List.append_assoc, ← h.current, totalSize_append, totalSize_cons, totalSize_nil]
    exact hroom
  · cases hlast : blocks.getLast? with
    | none => rwa [hlast] at hcarries
    | some b =>
      rw [hlast] at hcarries
      cases b with
      | split skipped' u' => exact hcarries
      | whole carried' source' =>
        obtain ⟨skipped, first, rest, hsplit, hskipped, hfirst, hcarried⟩ := hcarries
        exact ⟨skipped, first, rest ++ (pending ++ [u]), by rw [hsplit, List.append_assoc]; rfl, hskipped, hfirst, hcarried⟩

end Packed

/-- What a run of `_pack` keeps, between two units. -/
def PackedTo (chunker : SentenceChunker) (done : List TextUnit) (p : Packing) : Prop :=
  ∃ blocks carried source pending, chunker.Packed done p blocks carried source pending ∧
    (source = [] → chunker.Cleared blocks pending)

theorem packUnit_packed {done : List TextUnit} {p : Packing} (h : self.PackedTo done p) (u : TextUnit) :
    self.PackedTo (done ++ [u]) (self.packUnit p u) := by
  obtain ⟨_, _, _, pending, h, hcleared⟩ := h
  obtain ⟨blocks, carried, source, h, hcleared, hstarts⟩ := h.opensSection hcleared u
  rw [packUnit]
  generalize (if self.structured ∧ u.startsSection ∧ p.current ≠ [] then { out := p.emit } else p) = p at h ⊢
  by_cases hheading : self.structured ∧ u.isHeading
  · have hu : self.keeps u = false := by simp [keeps, hheading]
    refine ⟨blocks, carried, source, pending ++ [u], ?_, hcleared⟩
    simp only [if_pos hheading]
    exact h.skip hu fun hsource hstructured => Bool.eq_false_iff.mpr fun hu' => hsource (hstarts hstructured hu')
  · have hu : self.keeps u = true := by simpa only [keeps, Bool.not_eq_true', ← Bool.not_eq_true, Bool.and_eq_true] using hheading
    simp only [if_neg hheading]
    by_cases hlong : self.maxWords < u.size
    · simp only [if_pos hlong]
      obtain ⟨blocks', h', hcleared'⟩ := h.hardSplit hu hlong
      exact ⟨blocks', [], [], [], h', fun _ => hcleared'⟩
    · simp only [if_neg hlong]
      have hsize := Nat.le_of_not_lt hlong
      by_cases hfull : p.current ≠ [] ∧ self.maxWords < totalSize p.current + u.size
      · simp only [if_pos hfull, Nat.zero_add]
        obtain ⟨blocks', carried', h'⟩ := h.overflow hu hsize hfull.1 hfull.2 hstarts
        exact ⟨blocks', carried', _, [], h', fun hnil => absurd hnil (by simp)⟩
      · simp only [if_neg hfull]
        by_cases hsource : source = []
        · subst hsource
          exact ⟨blocks, [], _, [], h.begins hu hsize (hcleared rfl), fun hnil => absurd hnil (by simp)⟩
        · have hformed := (h.status.resolve_left fun hstatus => hsource hstatus.1).1
          have hcurrent : p.current ≠ [] := by
            rw [h.current]
            exact List.append_ne_nil_of_right_ne_nil _ (Packed.news_ne_nil hformed)
          have hroom := Nat.le_of_not_lt fun hlt => hfull ⟨hcurrent, hlt⟩
          exact ⟨blocks, carried, _, [], h.appends hu hsource hroom hstarts, fun hnil => absurd hnil (by simp [hsource])⟩

theorem foldl_packed : ∀ {us done : List TextUnit} {p : Packing}, self.PackedTo done p →
    self.PackedTo (done ++ us) (us.foldl self.packUnit p)
  | [], done, _, h => by rwa [List.append_nil]
  | u :: us, done, p, h => by
    have hstep := @foldl_packed us _ _ (packUnit_packed h u)
    rwa [List.append_assoc] at hstep

/-! ### The chunks -/

/-- The blocks that some units fall into. -/
structure Blocks (chunker : SentenceChunker) (units : List TextUnit) (blocks : List Block) : Prop where
  covers : ∃ tail, blocks.flatMap Block.source ++ tail = units ∧ ∀ x ∈ tail, chunker.keeps x = false
  formed : ∀ b ∈ blocks, chunker.Formed b
  linked : chunker.Linked none blocks

theorem pack_blocks {units : List TextUnit} : ∃ blocks, self.pack units = blocks.flatMap self.render ∧
    self.Blocks units blocks := by
  have hstart : self.PackedTo [] {} :=
    ⟨[], [], [], [], ⟨rfl, rfl, rfl, rfl, nofun, nofun, trivial, .inl ⟨rfl, rfl⟩⟩, fun _ => .inl nofun⟩
  obtain ⟨_, _, _, pending, h, -⟩ := @foldl_packed self units _ _ hstart
  obtain ⟨blocks, h, -⟩ := h.emit
  rw [List.nil_append] at h
  exact ⟨blocks, h.out, ⟨pending, h.covers, h.skipped⟩, h.formed, h.linked⟩

/-- The chunks of a unit that is too long: its words in order, in runs that a chunk has room for. -/
structure Runs (chunker : SentenceChunker) (u : TextUnit) : Prop where
  whole : (chunker.hardSplit u).flatMap (fun c => words c.2) = words u.text
  bounded : ∀ c ∈ chunker.hardSplit u, words c.2 ≠ [] ∧ (words c.2).length ≤ chunker.maxWords

theorem words_run {u : TextUnit} {run : List String} (hrun : run ∈ slices self.maxWords (words u.text)) :
    words (" ".intercalate run) = run := by
  refine words_join (c := ' ') rfl (by decide) fun w hw => @mem_words w u.text ?_
  rw [← @flatten_slices _ _ (words u.text) self.positive]
  exact List.mem_flatten_of_mem hrun hw

theorem hardSplit_runs (u : TextUnit) : self.Runs u where
  whole := by
    conv_rhs => rw [← @flatten_slices _ _ (words u.text) self.positive]
    rw [hardSplit, List.flatMap_map, List.flatMap_def]
    refine congrArg List.flatten ?_
    exact (List.map_congr_left fun run hrun => words_run hrun).trans (List.map_id _)
  bounded c hc := by
    obtain ⟨run, hrun, rfl⟩ := List.mem_map.mp hc
    show words (" ".intercalate run) ≠ [] ∧ _
    rw [words_run hrun]
    exact mem_slices self.positive hrun

/-- Packing loses nothing and respects the limits: the new parts of all blocks are the units that are kept, in order. -/
structure Packs (chunker : SentenceChunker) (units : List TextUnit) (blocks : List Block) : Prop extends
    Blocks chunker units blocks where
  ordered : blocks.flatMap chunker.news = units.filter chunker.keeps
  bounded : ∀ b ∈ blocks, ∀ c ∈ chunker.render b, (words c.2).length ≤ chunker.maxWords
  runs : ∀ skipped u, Block.split skipped u ∈ blocks → chunker.Runs u

theorem Blocks.respects {units : List TextUnit} {blocks : List Block} (h : self.Blocks units blocks) : self.Packs units blocks where
  toBlocks := h
  ordered := by
    obtain ⟨tail, rfl, htail⟩ := h.covers
    rw [List.filter_append, filter_skipped htail, List.append_nil, List.filter_flatMap]
    rfl
  bounded b hb c hc := by
    cases b with
    | split skipped u => exact ((hardSplit_runs u).bounded c hc).2
    | whole carried source =>
      rw [List.mem_singleton.mp hc, words_bodyOf]
      exact (h.formed _ hb).2.2
  runs _ u _ := hardSplit_runs u

theorem packs (chunker : SentenceChunker) (units : List TextUnit) : ∃ blocks,
    chunker.pack units = blocks.flatMap chunker.render ∧ chunker.Packs units blocks := by
  obtain ⟨blocks, hpack, hblocks⟩ := @pack_blocks chunker units
  exact ⟨blocks, hpack, hblocks.respects⟩

/-! ### A document -/

/-- The chunks before they are numbered. -/
def items (self : SentenceChunker) (title : Option String) (sections : List Section) : List Item :=
  sections.flatMap fun s => (self.pack (splitUnits s.text)).map fun x => (self.chunkText title x.1 x.2, s.page, x.1)

variable {title : Option String} {sections : List Section}

theorem chunk_eq : self.chunk sections title = pushAll [] (self.items title sections) := by
  rw [pushAll, items, List.foldl_flatMap, chunk]
  simp only [List.foldl_map]

theorem chunk_items : (self.chunk sections title).map (fun c => (c.text, c.page, c.heading)) = self.items title sections := by
  rw [chunk_eq, pushAll_item]

/-- A chunk of a document is one that a section's units are packed into. -/
theorem mem_chunk {c : Chunk} (h : c ∈ self.chunk sections title) : ∃ s ∈ sections, ∃ x ∈ self.pack (splitUnits s.text),
    c.text = self.chunkText title x.1 x.2 ∧ c.heading = x.1 := by
  have hitem : (c.text, c.page, c.heading) ∈ self.items title sections := by
    rw [← chunk_items]
    exact List.mem_map_of_mem h
  obtain ⟨s, hs, hitem⟩ := List.mem_flatMap.mp hitem
  obtain ⟨x, hx, heq⟩ := List.mem_map.mp hitem
  obtain ⟨htext, hrest⟩ := Prod.mk.inj heq
  exact ⟨s, hs, x, hx, htext.symm, (Prod.mk.inj hrest).2.symm⟩

theorem chunk_of_mem {s : Section} (hs : s ∈ sections) {x : Option String × String} (hx : x ∈ self.pack (splitUnits s.text)) :
    ∃ c ∈ self.chunk sections title, c.text = self.chunkText title x.1 x.2 ∧ c.heading = x.1 := by
  have hitem : (self.chunkText title x.1 x.2, s.page, x.1) ∈ self.items title sections :=
    List.mem_flatMap.mpr ⟨s, hs, List.mem_map_of_mem hx⟩
  rw [← chunk_items] at hitem
  obtain ⟨c, hc, heq⟩ := List.mem_map.mp hitem
  obtain ⟨htext, hrest⟩ := Prod.mk.inj heq
  exact ⟨c, hc, htext, (Prod.mk.inj hrest).2⟩

end SentenceChunker
end NexusGate.Rag
