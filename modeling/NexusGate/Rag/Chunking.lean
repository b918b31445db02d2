import Mathlib.Algebra.GroupWithZero.Nat
import NexusGate.Text.Words

/-! # Chunking strategies

`app/rag/chunking.py`: fixed windows of words, and sentences packed up to a number of words, with the Markdown
headings above them. A pattern is modelled by what it matches on a line that has been stripped. -/

namespace NexusGate.Rag
open Text

/-- A part of a document, a page of a PDF. -/
structure Section where
  text : String
  page : Option Nat := none

structure Chunk where
  index : Nat
  text : String
  page : Option Nat := none
  heading : Option String := none
  deriving DecidableEq

/-- The next chunk of a document. -/
def push (chunks : List Chunk) (text : String) (page : Option Nat) (heading : Option String) : List Chunk :=
  chunks ++ [{ index := chunks.length, text, page, heading }]

/-- The chunks are numbered from 0 on. -/
def Numbered (chunks : List Chunk) : Prop := chunks.map Chunk.index = List.range chunks.length

theorem push_numbered {chunks : List Chunk} {text : String} {page : Option Nat} {heading : Option String}
    (h : Numbered chunks) : Numbered (push chunks text page heading) := by
  unfold Numbered at *
  simp [push, h, List.range_succ]

/-- `range(0, stop, step)`. -/
def rangeStep (stop step : Nat) : List Nat := (List.range ((stop + step - 1) / step)).map (· * step)

/-- The slices of `n` elements that a list falls into. -/
def slices {α : Type} (n : Nat) (xs : List α) : List (List α) :=
  (rangeStep xs.length n).map fun start => (xs.drop start).take n

/-! ## Fixed windows -/

structure FixedWindowChunker where
  maxWords : Nat
  overlapWords : Nat
  positive : 0 < maxWords
  fits : overlapWords < maxWords

namespace FixedWindowChunker
variable (self : FixedWindowChunker)

/-- The windows at these places, up to the first that reaches the end. -/
def windowsAt (ws : List String) : List Nat → List (List String)
  | [] => []
  | start :: starts =>
    (ws.drop start).take self.maxWords :: if ws.length ≤ start + self.maxWords then [] else windowsAt ws starts

def windows (ws : List String) : List (List String) :=
  self.windowsAt ws (rangeStep ws.length (self.maxWords - self.overlapWords))

def chunk (sections : List Section) : List Chunk :=
  sections.foldl (fun chunks s =>
    (self.windows (words s.text)).foldl (fun chunks window => push chunks (" ".intercalate window) s.page none) chunks) []

theorem numbered (sections : List Section) : Numbered (self.chunk sections) := by
  rw [chunk]
  refine List.foldlRecOn (motive := Numbered) sections _ rfl fun _ h _ _ => ?_
  exact List.foldlRecOn (motive := Numbered) _ _ h fun _ h _ _ => push_numbered h

end FixedWindowChunker

/-! ## Lines and sentences -/

def isMark (c : Char) : Bool := c == '#'

/-- `\s*#*$`. -/
def closes (cs : List Char) : Bool := (cs.dropWhile isSpace).all isMark

/-- `(.+?)\s*#*$`: the shortest text after which the line can be closed. -/
def lazyText : List Char → List Char
  | [] => []
  | c :: cs => c :: if closes cs then [] else lazyText cs

/-- `_HEADING`: the level and the text of a heading. -/
def heading (line : List Char) : Option (Nat × List Char) :=
  let marks := line.takeWhile isMark
  let rest := line.dropWhile isMark
  let text := rest.dropWhile isSpace
  if 1 ≤ marks.length ∧ marks.length ≤ 6 ∧ rest.head?.any isSpace ∧ text ≠ [] then some (marks.length, lazyText text)
  else none

/-- The zeros of the Unicode decimal digits, each followed by the other nine. -/
def decimalZeros : List Nat :=
  [0x30, 0x660, 0x6f0, 0x7c0, 0x966, 0x9e6, 0xa66, 0xae6, 0xb66, 0xbe6, 0xc66, 0xce6, 0xd66, 0xde6, 0xe50, 0xed0, 0xf20,
    0x1040, 0x1090, 0x17e0, 0x1810, 0x1946, 0x19d0, 0x1a80, 0x1a90, 0x1b50, 0x1bb0, 0x1c40, 0x1c50, 0xa620, 0xa8d0, 0xa900,
    0xa9d0, 0xa9f0, 0xaa50, 0xabf0, 0xff10, 0x104a0, 0x10d30, 0x11066, 0x110f0, 0x11136, 0x111d0, 0x112f0, 0x11450, 0x114d0,
    0x11650, 0x116c0, 0x11730, 0x118e0, 0x11950, 0x11c50, 0x11d50, 0x11da0, 0x16a60, 0x16ac0, 0x16b50, 0x1d7ce, 0x1d7d8,
    0x1d7e2, 0x1d7ec, 0x1d7f6, 0x1e140, 0x1e2f0, 0x1e950, 0x1fbf0]

/-- `\d`. -/
def isDecimal (c : Char) : Bool := decimalZeros.any fun d => d ≤ c.toNat && c.toNat ≤ d + 9

/-- One of these characters, and a white space. -/
def bullet (marks : List Char) : List Char → Bool
  | c :: d :: _ => marks.contains c && isSpace d
  | _ => false

/-- `_STANDALONE_LINE`: a list item or a table row. -/
def standalone (line : List Char) : Bool :=
  let cs := line.dropWhile isSpace
  bullet ['-', '*', '+'] cs || cs.head? == some '|' ||
    ((cs.takeWhile isDecimal) != [] && bullet ['.', ')'] (cs.dropWhile isDecimal))

/-- `[.!?]`. -/
def endsSentence (c : Char) : Bool := ['.', '!', '?'].contains c

/-- `["'(\[]?[A-Z0-9]`. -/
def startsSentence : List Char → Bool
  | c :: cs =>
    let initial (c : Char) := ('A' ≤ c && c ≤ 'Z') || ('0' ≤ c && c ≤ '9')
    initial c || (['"', Char.ofNat 39, '(', '['].contains c && cs.head?.any initial)
  | [] => false

/-- `_SENTENCE_END.split`: `piece` is what there is of the current sentence, its last character first, and `skip`
    tells that the white space after the one before is still being read. -/
def splitSentences (skip : Bool) (piece : List Char) : List Char → List (List Char)
  | [] => [piece.reverse]
  | c :: cs =>
    if skip && isSpace c then splitSentences true piece cs
    else if isSpace c && piece.head?.any endsSentence && startsSentence (cs.dropWhile isSpace) then
      piece.reverse :: splitSentences true [] cs
    else splitSentences false (c :: piece) cs

/-- `_sentences`. -/
def sentences (lines : List String) : List String :=
  (((splitSentences false [] (" ".intercalate lines).toList).map strip).filter fun s => !s.isEmpty).map .ofList

/-! ## Units -/

/-- `_Unit`: a heading, a sentence, a list item or a table row. -/
structure TextUnit where
  text : String
  heading : Option String
  startsSection : Bool
  isHeading : Bool

/-- The variables of `_split_units`; the innermost heading is the first of the stack. -/
structure Splitter where
  units : List TextUnit := []
  stack : List (Nat × String) := []
  pendingSection : Bool := false
  paragraph : List String := []

namespace Splitter

def headingPath (st : Splitter) : Option String :=
  let path := " > ".intercalate (st.stack.reverse.map Prod.snd)
  if path = "" then none else some path

def add (st : Splitter) (pieces : List String) (isHeading : Bool) : Splitter :=
  pieces.foldl (fun s text => { s with
    units := s.units ++ [{ text, heading := st.headingPath, startsSection := s.pendingSection, isHeading }]
    pendingSection := false }) st

/-- The paragraph comes to its end. -/
def flush (st : Splitter) : Splitter := { st.add (sentences st.paragraph) false with paragraph := [] }

def readLine (st : Splitter) (rawLine : List Char) : Splitter :=
  let line := strip rawLine
  let item := line != [] && standalone line
  let st := if line = [] ∨ (heading line).isSome ∨ item = true then st.flush else st
  match heading line with
  | some (level, text) =>
    let stack := (level, .ofList text) :: st.stack.dropWhile fun h => level ≤ h.1
    { st with stack, pendingSection := true }.add [.ofList text] true
  | none =>
    if item then st.add [.ofList line] false
    else if line = [] then st
    else { st with paragraph := st.paragraph ++ [.ofList line] }

end Splitter

/-- `text.split("\n")`. -/
def linesOf (text : String) : List (List Char) := text.toList.splitOn '\n'

/-- `_split_units`. -/
def splitUnits (text : String) : List TextUnit := ((linesOf text).foldl Splitter.readLine {}).flush.units

/-! ## Packing sentences -/

/-- The part of a text before the first `" > "`. -/
def beforeSeparator : List Char → List Char
  | ' ' :: '>' :: ' ' :: _ => []
  | c :: cs => c :: beforeSeparator cs
  | [] => []

/-- `_context_prefix`; an empty text counts as none. -/
def contextPrefix (title heading : Option String) : String :=
  let title := title.filter fun t => t ≠ ""
  let heading := heading.filter fun h => h ≠ ""
  let title := if title.isSome ∧ heading.isSome ∧ heading.map (fun h => beforeSeparator h.toList) = title.map String.toList
    then none else title
  " > ".intercalate (title.toList ++ heading.toList)

def TextUnit.size (u : TextUnit) : Nat := (words u.text).length

def totalSize (units : List TextUnit) : Nat := (units.map TextUnit.size).sum

/-- The text of a chunk's units. -/
def bodyOf (units : List TextUnit) : String := "\n".intercalate (units.map TextUnit.text)

structure SentenceChunker where
  maxWords : Nat
  overlapWords : Nat
  structured : Bool
  positive : 0 < maxWords
  fits : overlapWords < maxWords

/-- The variables of `_pack`. -/
structure Packing where
  out : List (Option String × String) := []
  current : List TextUnit := []
  fresh : Nat := 0

/-- What `emit` makes of `out`. -/
def Packing.emit (p : Packing) : List (Option String × String) :=
  if p.fresh = 0 then p.out
  else p.out ++ [(p.current[p.current.length - p.fresh]?.bind TextUnit.heading, bodyOf p.current)]

/-- The loop of `_overlap`, over the units from the last to the first. -/
def carry (budget : Nat) (carried : List TextUnit) : List TextUnit → List TextUnit
  | [] => carried
  | u :: us => if budget < u.size then carried else carry (budget - u.size) (u :: carried) us

namespace SentenceChunker
variable (self : SentenceChunker)

/-- `_overlap`. -/
def overlap (previous : List TextUnit) (incoming : Nat) : List TextUnit :=
  carry (min self.overlapWords (self.maxWords - incoming)) [] previous.reverse

/-- The chunks of a unit that is too long for one. -/
def hardSplit (u : TextUnit) : List (Option String × String) :=
  (slices self.maxWords (words u.text)).map fun run => (u.heading, " ".intercalate run)

def packUnit (p : Packing) (u : TextUnit) : Packing :=
  let p := if self.structured ∧ u.startsSection ∧ p.current ≠ [] then { out := p.emit } else p
  if self.structured ∧ u.isHeading then p
  else if self.maxWords < u.size then { out := p.emit ++ self.hardSplit u }
  else
    let p := if p.current ≠ [] ∧ self.maxWords < totalSize p.current + u.size then
      { out := p.emit, current := self.overlap p.current u.size } else p
    { p with current := p.current ++ [u], fresh := p.fresh + 1 }

/-- `_pack`. -/
def pack (units : List TextUnit) : List (Option String × String) := (units.foldl self.packUnit {}).emit

def chunkText (title heading : Option String) (body : String) : String :=
  let start := if self.structured then contextPrefix title heading else ""
  if start = "" then body else start ++ "\n" ++ body

def chunk (sections : List Section) (title : Option String) : List Chunk :=
  sections.foldl (fun chunks s =>
    (self.pack (splitUnits s.text)).foldl (fun chunks (heading, body) =>
      push chunks (self.chunkText title heading body) s.page heading) chunks) []

theorem numbered (sections : List Section) (title : Option String) : Numbered (self.chunk sections title) := by
  rw [chunk]
  refine List.foldlRecOn (motive := Numbered) sections _ rfl fun _ h _ _ => ?_
  exact List.foldlRecOn (motive := Numbered) _ _ h fun _ h _ _ => push_numbered h

end SentenceChunker
end NexusGate.Rag
