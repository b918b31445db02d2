import NexusGate.Rag.Chunking

/-! # Ingestion

`app/rag/ingestion.py`: the title of a document that is uploaded without one. -/

namespace NexusGate.Rag
open Text

/-- `\s+(.+?)\s*#*$` of `_H1`, after the mark: the group. The white space may run over the end of the line, and the text
    does not. Where nothing else is left, the white space gives back its last character that is no newline. -/
def h1Group (cs : List Char) : Option (List Char) :=
  let sp := cs.takeWhile isSpace
  let rest := cs.dropWhile isSpace
  if sp = [] then none
  else if rest ≠ [] then some (lazyText (rest.takeWhile (· != '\n')))
  else (sp.tail.filter (· != '\n')).getLast?.map fun c => [c]

/-- `_H1.search`; `lineStart` tells whether a line begins here. -/
def searchH1 (lineStart : Bool) : List Char → Option (List Char)
  | [] => none
  | c :: cs => (if lineStart && isMark c then h1Group cs else none).or (searchH1 (c == '\n') cs)

/-- What a title falls back to; `stem` is `PurePath(filename).stem`. -/
def fallbackTitle (stem : String) : String := if stem = "" then "untitled" else stem

/-- `infer_title`, of a document whose first section is this text. -/
def inferTitle (text stem : String) : String :=
  match searchH1 true (text.toList.take 2000) with
  | some group => .ofList (strip group)
  | none => fallbackTitle stem

end NexusGate.Rag
