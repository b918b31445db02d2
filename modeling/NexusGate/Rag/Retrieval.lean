import NexusGate.Rag.VectorStore

/-! # Retrieved passages

What a search of `app/rag/retrieval.py` returns: a chunk with the score of the vector search, and with that of the
cross-encoder if it was reranked. -/

namespace NexusGate.Rag

structure RetrievedChunk where
  chunk : StoredChunk
  rerankScore : Option ℚ := none
  deriving DecidableEq

def RetrievedChunk.vectorScore (h : RetrievedChunk) : ℚ := h.chunk.score

end NexusGate.Rag
