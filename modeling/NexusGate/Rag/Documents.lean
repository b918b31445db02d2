/-! # Documents

What an upload carries into ingestion, and what ingestion records about the document
(`app/rag/ingestion.py`, `app/rag/documents.py`). Times are milliseconds. -/

namespace NexusGate.Rag

abbrev Bytes := List UInt8

structure DocumentUpload where
  filename : String
  contentType : Option String
  data : Bytes
  title : Option String := none
  deriving DecidableEq, Repr

structure DocumentRecord where
  docId : String
  title : String
  filename : String
  contentType : Option String
  sizeBytes : Nat
  pages : Option Nat
  chunks : Nat
  chunker : String
  createdAt : Nat
  deriving DecidableEq, Repr

end NexusGate.Rag
