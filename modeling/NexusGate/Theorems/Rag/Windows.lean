import Mathlib.Data.List.Flatten
import NexusGate.Rag.Chunking

/-! # Fixed windows tile a document

Each window but the last is full and begins a stride after the one before, so that what it adds to the document
starts where that one ended. -/

namespace NexusGate.Rag
open Text

/-! ### Numbered chunks -/

/-- A document's chunks before they are numbered: text, page and heading. -/
abbrev Item := String × Option Nat × Option String

/-- The chunks after a list of windows was pushed. -/
def pushAll (chunks : List Chunk) (items : List Item) : List Chunk :=
  items.foldl (fun chunks x => push chunks x.1 x.2.1 x.2.2) chunks

theorem pushAll_eq : ∀ {items : List Item} {chunks : List Chunk}, pushAll chunks items = chunks ++
    (items.zipIdx chunks.length).map fun x => { index := x.2, text := x.1.1, page := x.1.2.1, heading := x.1.2.2 }
  | [], chunks => (List.append_nil chunks).symm
  | x :: items, chunks => by
    show pushAll (push chunks x.1 x.2.1 x.2.2) items = _
    have hlength : (push chunks x.1 x.2.1 x.2.2).length = chunks.length + 1 := List.length_append
    rw [pushAll_eq, hlength, push, List.append_assoc]
    rfl

theorem pushAll_index {items : List Item} : (pushAll [] items).map Chunk.index = List.range items.length := by
  rw [pushAll_eq, List.nil_append, List.map_map, List.range_eq_range']
  exact List.zipIdx_map_snd 0 items

theorem pushAll_item {items : List Item} : (pushAll [] items).map (fun c => (c.text, c.page, c.heading)) = items := by
  rw [pushAll_eq, List.nil_append, List.map_map]
  exact List.zipIdx_map_fst 0 items

/-! ### Strides -/

theorem rangeStep_eq (stop step : Nat) : rangeStep stop step = List.range' 0 ((stop + step - 1) / step) step :=
  List.ext_getElem (by simp [rangeStep]) fun i _ _ => by simp [rangeStep, Nat.mul_comm]

theorem le_stride {stop step : Nat} (hstep : 0 < step) : stop ≤ (stop + step - 1) / step * step := by
  have := Nat.div_add_mod (stop + step - 1) step
  have := Nat.mod_lt (stop + step - 1) hstep
  have hcomm := Nat.mul_comm step ((stop + step - 1) / step)
  omega

section Slices
variable {α : Type} {n : Nat} {xs : List α}

theorem slices_from : ∀ {k start : Nat}, xs.length ≤ start + k * n →
    ((List.range' start k n).map fun start => (xs.drop start).take n).flatten = xs.drop start
  | 0, start, h => by rw [List.drop_eq_nil_of_le (by omega)]; rfl
  | k + 1, start, h => by
    have hnext : xs.length ≤ start + n + k * n := by
      rw [Nat.succ_mul] at h
      omega
    rw [List.range'_succ, List.map_cons, List.flatten_cons, slices_from hnext, ← List.drop_drop]
    exact List.take_append_drop ..

theorem flatten_slices (hn : 0 < n) : (slices n xs).flatten = xs := by
  rw [slices, rangeStep_eq]
  exact @slices_from _ _ _ _ 0 (by rw [Nat.zero_add]; exact le_stride hn)

theorem mem_slices {x : List α} (hn : 0 < n) (h : x ∈ slices n xs) : x ≠ [] ∧ x.length ≤ n := by
  obtain ⟨start, hstart, rfl⟩ := List.mem_map.mp h
  obtain ⟨i, hi, rfl⟩ := List.mem_map.mp hstart
  refine ⟨List.ne_nil_of_length_pos ?_, List.length_take_le ..⟩
  have hlt : i + 1 ≤ (xs.length + n - 1) / n := List.mem_range.mp hi
  have hle := (Nat.le_div_iff_mul_le hn).mp hlt
  rw [Nat.succ_mul] at hle
  rw [List.length_take, List.length_drop]
  omega

end Slices

namespace FixedWindowChunker
variable {self : FixedWindowChunker} {ws : List String}

/-- Windows over a list of words. -/
structure Tiles (chunker : FixedWindowChunker) (ws : List String) (windows : List (List String)) : Prop where
  begins : ∀ x ∈ windows.head?, x ≠ []
  bounded : ∀ x ∈ windows, x.length ≤ chunker.maxWords
  full : ∀ x ∈ windows.dropLast, x.length = chunker.maxWords
  shared : windows.IsChain fun x y =>
    x.drop (x.length - chunker.overlapWords) = y.take chunker.overlapWords ∧ chunker.overlapWords < y.length
  whole : windows.head?.getD [] ++ windows.tail.flatMap (List.drop chunker.overlapWords) = ws

/-- The windows from one place on. -/
theorem tiles_from : ∀ {n start : Nat}, start < ws.length →
    ws.length ≤ start + n * (self.maxWords - self.overlapWords) → ∃ rest,
      self.windowsAt ws (List.range' start n (self.maxWords - self.overlapWords)) = (ws.drop start).take self.maxWords :: rest ∧
        self.Tiles (ws.drop start) ((ws.drop start).take self.maxWords :: rest)
  | 0, start, hstart, hend => by omega
  | n + 1, start, hstart, hend => by
    have hfits := self.fits
    have hbegins : ∀ x ∈ some ((ws.drop start).take self.maxWords), x ≠ [] := by
      rintro x ⟨⟩ hnil
      have := congrArg List.length hnil
      rw [List.length_take, List.length_drop, List.length_nil] at this
      omega
    have hlength : ((ws.drop start).take self.maxWords).length ≤ self.maxWords := List.length_take_le ..
    rw [List.range'_succ, windowsAt]
    split
    · rename_i hlast
      have hall : (ws.drop start).take self.maxWords = ws.drop start :=
        List.take_of_length_le (by rw [List.length_drop]; omega)
      exact ⟨[], rfl, hbegins, by simpa using hlength, nofun, .singleton _, by simp [hall]⟩
    · rename_i hmore
      have hnext : start + (self.maxWords - self.overlapWords) < ws.length := by omega
      have hend' : ws.length ≤ start + (self.maxWords - self.overlapWords) + n * (self.maxWords - self.overlapWords) := by
        rw [Nat.succ_mul] at hend
        omega
      obtain ⟨rest, hrest, htiles⟩ := tiles_from hnext hend'
      rw [hrest]
      have hfull : ((ws.drop start).take self.maxWords).length = self.maxWords := by
        rw [List.length_take, List.length_drop]
        omega
      have hdrop : (ws.drop start).drop (self.maxWords - self.overlapWords) =
        ws.drop (start + (self.maxWords - self.overlapWords)) := List.drop_drop
      refine ⟨_, rfl, hbegins, ?_, ?_, ?_, ?_⟩
      · exact List.forall_mem_cons.mpr ⟨hlength, htiles.bounded⟩
      · rw [List.dropLast_cons_of_ne_nil (List.cons_ne_nil _ _)]
        exact List.forall_mem_cons.mpr ⟨hfull, htiles.full⟩
      · refine List.isChain_cons_cons.mpr ⟨⟨?_, ?_⟩, htiles.shared⟩
        · rw [hfull, List.drop_take, hdrop, List.take_take]
          congr 1
          omega
        · rw [List.length_take, List.length_drop]
          omega
      · have hwhole := congrArg (List.drop self.overlapWords) htiles.whole
        rw [List.head?_cons, Option.getD_some, List.tail_cons, List.drop_append_of_le_length (by
          rw [List.length_take, List.length_drop]
          omega), List.drop_drop] at hwhole
        rw [List.head?_cons, Option.getD_some, List.tail_cons, List.flatMap_cons, hwhole,
          show start + (self.maxWords - self.overlapWords) + self.overlapWords = start + self.maxWords by omega,
          ← List.drop_drop]
        exact List.take_append_drop ..

theorem tiles (hws : ws ≠ []) : self.Tiles ws (self.windows ws) := by
  have hfits := self.fits
  have hlength := List.length_pos_iff.mpr hws
  have hend := @le_stride ws.length _ (Nat.sub_pos_of_lt hfits)
  obtain ⟨rest, hrest, htiles⟩ := @tiles_from self ws _ _ hlength (by rwa [Nat.zero_add])
  rw [windows, rangeStep_eq, hrest]
  exact htiles

theorem windows_nil : self.windows [] = [] := by
  have hzero : (0 + (self.maxWords - self.overlapWords) - 1) / (self.maxWords - self.overlapWords) = 0 := by
    have hfits := self.fits
    exact Nat.div_eq_of_lt (by omega)
  rw [windows, List.length_nil, rangeStep, hzero]
  rfl

theorem mem_windowsAt {x : List String} : ∀ {starts : List Nat}, x ∈ self.windowsAt ws starts → ∀ w ∈ x, w ∈ ws
  | start :: starts, hx => by
    rw [windowsAt] at hx
    rcases List.mem_cons.mp hx with rfl | hx
    · exact fun w hw => List.mem_of_mem_drop (List.mem_of_mem_take hw)
    · split at hx
      · cases hx
      · exact mem_windowsAt hx

/-- What a document's chunks are: the windows of its sections, as texts, one after the other. -/
structure TilesDocument (chunker : FixedWindowChunker) (sections : List Section) (chunks : List Chunk) : Prop where
  windows : chunks.map (fun c => (words c.text, c.page, c.heading)) =
    sections.flatMap fun s => (chunker.windows (words s.text)).map fun x => (x, s.page, none)
  texts : ∀ c ∈ chunks, c.text = " ".intercalate (words c.text)
  tiled : ∀ s ∈ sections, words s.text ≠ [] → chunker.Tiles (words s.text) (chunker.windows (words s.text))
  empty : ∀ s ∈ sections, words s.text = [] → chunker.windows (words s.text) = []
  numbered : chunks.map Chunk.index = List.range chunks.length

/-- The chunks before they are numbered. -/
def items (self : FixedWindowChunker) (sections : List Section) : List Item :=
  sections.flatMap fun s => (self.windows (words s.text)).map fun x => (" ".intercalate x, s.page, none)

theorem chunk_eq {sections : List Section} : self.chunk sections = pushAll [] (self.items sections) := by
  rw [pushAll, items, List.foldl_flatMap, chunk]
  simp only [List.foldl_map]

theorem chunk_tiles (self : FixedWindowChunker) (sections : List Section) :
    self.TilesDocument sections (self.chunk sections) := by
  have hitems := @pushAll_item (self.items sections)
  have hjoin : ∀ s : Section, ∀ x ∈ self.windows (words s.text), words (" ".intercalate x) = x := fun s x hx =>
    words_join (c := ' ') rfl (by decide) fun w hw => mem_words (mem_windowsAt hx w hw)
  refine ⟨?_, ?_, fun s _ => tiles, fun s _ hs => by rw [hs, windows_nil], ?_⟩
  · have h := congrArg (List.map fun x : Item => (words x.1, x.2)) hitems
    rw [List.map_map, ← chunk_eq] at h
    refine h.trans ?_
    rw [items, List.map_flatMap]
    refine List.flatMap_congr fun s _ => ?_
    rw [List.map_map]
    refine List.map_congr_left fun x hx => ?_
    rw [Function.comp_apply, hjoin s x hx]
  · intro c hc
    have hmem : (c.text, c.page, c.heading) ∈ self.items sections := by
      rw [← hitems, ← chunk_eq]
      exact List.mem_map_of_mem hc
    obtain ⟨s, -, hs⟩ := List.mem_flatMap.mp hmem
    obtain ⟨x, hx, heq⟩ := List.mem_map.mp hs
    obtain ⟨htext, -⟩ := Prod.mk.inj heq
    rw [← htext, hjoin s x hx]
  · have hlength := congrArg List.length hitems
    rw [List.length_map] at hlength
    rw [chunk_eq, pushAll_index, hlength]

end FixedWindowChunker
end NexusGate.Rag
