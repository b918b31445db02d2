import Mathlib.Algebra.Order.Field.Rat
import NexusGate.Text.Words

/-! # Lexical terms

`app/rag/lexical.py`: the terms of a text and their BM25 weights, over exact rationals. The pattern of a term is
modelled by how its match goes on from one character to the next. -/

namespace NexusGate.Rag.Lexical

/-- `str.lower`, of which a term only meets what it does to ASCII. -/
structure Lowering where
  lower : List Char → List Char
  lower_ascii : ∀ {cs}, (∀ c ∈ cs, c.toNat < 128) → lower cs = cs.map Char.toLower

def Lowering.ascii : Lowering where
  lower cs := cs.map Char.toLower
  lower_ascii _ := rfl

def K1 : ℚ := 6 / 5

def B : ℚ := 3 / 4

def AVERAGE_LENGTH : ℚ := 180

/-- `[a-z0-9]`. -/
def isPart (c : Char) : Bool := (c.toNat ≥ 97 && c.toNat ≤ 122) || (c.toNat ≥ 48 && c.toNat ≤ 57)

/-- `[._-]`. -/
def isJoint (c : Char) : Bool := c == '.' || c == '_' || c == '-'

def close (matched : List Char) : List (List Char) := if matched = [] then [] else [matched]

/-- `_TERM.finditer`, with what is matched so far of the term that is open. A match goes on with a character of a part, and
    with a joint when a part follows it. -/
def finditer (matched : List Char) : List Char → List (List Char)
  | [] => close matched
  | c :: cs =>
    if isPart c || (matched ≠ [] && isJoint c && cs.head?.any isPart) then finditer (matched ++ [c]) cs
    else close matched ++ finditer [] cs

/-- `[p for p in _PARTS.split(token) if p]`. -/
def parts (token : List Char) : List (List Char) := (token.splitOnP isJoint).filter fun p => !p.isEmpty

/-- A token, and its parts when it has any. -/
def expand (token : List Char) : List (List Char) := token :: if (parts token).length > 1 then parts token else []

def terms (L : Lowering) (text : String) : List String :=
  ((finditer [] (L.lower text.toList)).flatMap expand).map .ofList

/-! ## Term ids -/

def crcShift (crc : BitVec 32) : BitVec 32 := if crc.getLsbD 0 then crc >>> 1 ^^^ 0xEDB88320#32 else crc >>> 1

def crcByte (crc : BitVec 32) (byte : UInt8) : BitVec 32 := crcShift^[8] (crc ^^^ byte.toBitVec.zeroExtend 32)

/-- `zlib.crc32`. -/
def crc32 (bytes : List UInt8) : BitVec 32 := ~~~bytes.foldl crcByte 0xFFFFFFFF#32

def termId (term : String) : Nat := (crc32 (term.toList.flatMap String.utf8EncodeChar) &&& 0x7FFFFFFF#32).toNat

example : termId "a" = 0x68B7BE43 := by decide +kernel

/-! ## Sparse vectors -/

structure SparseTerms where
  indices : List Nat
  values : List ℚ

/-- `counts[key] = counts.get(key, 0) + 1`. -/
def bump (key : Nat) : List (Nat × Nat) → List (Nat × Nat)
  | [] => [(key, 1)]
  | (k, n) :: counts => if k = key then (k, n + 1) :: counts else (k, n) :: bump key counts

def counts (tokens : List String) : List (Nat × Nat) := tokens.foldl (fun counts token => bump (termId token) counts) []

def norm (length : Nat) (averageLength : ℚ) : ℚ := K1 * (1 - B + B * length / averageLength)

def weight (norm : ℚ) (tf : Nat) : ℚ := tf * (K1 + 1) / (tf + norm)

def documentTerms (L : Lowering) (text : String) (averageLength : ℚ := AVERAGE_LENGTH) : SparseTerms :=
  let tokens := terms L text
  if tokens = [] then ⟨[], []⟩
  else
    { indices := (counts tokens).map Prod.fst
      values := (counts tokens).map fun entry => weight (norm tokens.length averageLength) entry.2 }

def queryTerms (L : Lowering) (text : String) : SparseTerms :=
  let unique := ((terms L text).map termId).eraseDups
  { indices := unique, values := List.replicate unique.length 1 }

end NexusGate.Rag.Lexical
