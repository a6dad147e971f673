import Vllm.Lib.Chunks
import Vllm.Lib.IntArrays

/-! Chunked local attention: each request of a batch is cut into virtual requests, one for each chunk
that its queries are in, so that plain causal attention over these is the local attention. -/

namespace Vllm.Attention

open Numpy

structure BlockTable where
  width : Nat
  rows : List (List Int)
  length_of_mem : ∀ row ∈ rows, row.length = width

structure CommonAttentionMetadata where
  queryStartLoc : List Int
  seqLens : List Int
  numReqs : Nat
  numActualTokens : Nat
  maxQueryLen : Int
  maxSeqLen : Int
  blockTable : BlockTable
  slotMapping : List Int
  causal : Bool
  numComputedTokens : List Int

/-- The metadata of a batch: it has a request, its shapes agree, and the queries begin at 0. -/
structure Batch extends CommonAttentionMetadata where
  seqLens_ne_nil : seqLens ≠ []
  length_queryStartLoc : queryStartLoc.length = seqLens.length + 1
  head_queryStartLoc : queryStartLoc.head? = some 0
  length_rows : seqLens.length ≤ blockTable.rows.length

def BlockTable.gather (table : BlockTable) (requests blocks : List Int) : Result (List Int) :=
  (requests.zip blocks).mapM fun p => item table.rows p.1 >>= fun row => item row p.2

def BlockTable.view (flat : List Int) (height : Int) : Result BlockTable :=
  if h : flat.length = height.toNat * (flat.length / height.toNat) then
    .ok
      { width := flat.length / height.toNat
        rows := Numpy.rows height.toNat (flat.length / height.toNat) flat
        length_of_mem := fun _ => length_of_mem_rows h }
  else .error (.runtimeError "shape is invalid for input")

def CommonAttentionMetadata.qSeqlens (m : CommonAttentionMetadata) : List Int :=
  List.zipWith (· - ·) (m.queryStartLoc.drop 1) m.queryStartLoc.dropLast

section Requests

variable (attnChunkSize : Nat)

def qTokensInFirstBlock (seqLen qSeqlen : Int) : Int :=
  min (attnChunkSize - remainder (seqLen - qSeqlen) attnChunkSize) qSeqlen

def tokensInLastBlock (seqLen : Int) : Int := attnChunkSize + remainder seqLen (-attnChunkSize)

def localBlocks (qSeqlen first : Int) : Int := 1 + Py.cdiv (qSeqlen - first) attnChunkSize

end Requests

def batchedArange (localBlocks cuNumBlocks : List Int) (virtualBatches : Int) :
    Result (List Int) := do
  let blockOffsets ← repeats (List.zipWith (· - ·) cuNumBlocks localBlocks) localBlocks
  return List.zipWith (· - ·) (arange virtualBatches) blockOffsets

def seqlensQLocal (attnChunkSize : Nat) (qSeqlens qTokensInFirstBlock localBlocks arange : List Int) :
    Result (List Int) := do
  let seqlens ← repeats (List.zipWith (· - ·) qSeqlens qTokensInFirstBlock) localBlocks
  -- the first block may be a partial one
  let seqlens ← putMask seqlens (arange.map fun i => decide (i = 0)) qTokensInFirstBlock
  let remaining := List.zipWith (fun q i : Int => min (q - attnChunkSize * (i - 1)) attnChunkSize)
    seqlens arange
  putMask seqlens (arange.map fun i => decide (0 < i))
    (compress (arange.map fun i => decide (0 < i)) remaining)

def seqlensKLocal (attnChunkSize : Nat) (virtualBatches : Int)
    (cuNumBlocks tokensInLastBlock : List Int) : Result (List Int) :=
  put (List.replicate virtualBatches.toNat (attnChunkSize : Int))
    ((cuNumBlocks.map (· - 1)).zip tokensInLastBlock)

def kSeqstartsAbsolute (attnChunkSize : Nat) (seqLens tokensInLastBlock localBlocks arange : List Int) :
    Result (List Int) := do
  let repeatedBlocks ← repeats localBlocks localBlocks
  let rarange := List.zipWith (fun n i => n - i - 1) repeatedBlocks arange
  let repeatedLens ← repeats seqLens localBlocks
  let repeatedLast ← repeats tokensInLastBlock localBlocks
  return List.zipWith (· - ·) repeatedLens
    (List.zipWith (fun i last : Int => i * attnChunkSize + last) rarange repeatedLast)

/-- The second result makes a block table for the virtual requests out of one for the requests. -/
def makeLocalAttentionVirtualBatches (attnChunkSize : Nat) (m : Batch) (blockSize : Nat) :
    Result (CommonAttentionMetadata × (BlockTable → Result BlockTable)) := do
  let qSeqlens := m.qSeqlens
  let firsts := List.zipWith (qTokensInFirstBlock attnChunkSize) m.seqLens qSeqlens
  let lasts := m.seqLens.map (tokensInLastBlock attnChunkSize)
  let localBlocks := List.zipWith (localBlocks attnChunkSize) qSeqlens firsts
  let cuNumBlocks := cumsum 0 localBlocks
  let virtualBatches ← item cuNumBlocks (-1)
  let arange ← batchedArange localBlocks cuNumBlocks virtualBatches
  let seqlensQ ← seqlensQLocal attnChunkSize qSeqlens firsts localBlocks arange
  let seqlensK ← seqlensKLocal attnChunkSize virtualBatches cuNumBlocks lasts
  let kSeqstarts ← kSeqstartsAbsolute attnChunkSize m.seqLens lasts localBlocks arange
  let blockStarts := kSeqstarts.map (floorDivide · blockSize)
  if blockSize = 0 then throw .zeroDivisionError
  Result.ensure (attnChunkSize % blockSize = 0)
    s!"attn_chunk_size {attnChunkSize} is not divisible by block_size {blockSize}"
  let pagesPerLocalBatch := attnChunkSize / blockSize
  let blockIndices := blockStarts.flatMap fun start =>
    (Numpy.arange pagesPerLocalBatch).map fun i => min (start + i) ((m.blockTable.width : Int) - 1)
  let batchIndices ← repeats (Numpy.arange m.seqLens.length) (localBlocks.map (· * pagesPerLocalBatch))
  let makeBlockTable := fun (table : BlockTable) =>
    table.gather batchIndices blockIndices >>= (BlockTable.view · virtualBatches)
  let blockTableLocal ← makeBlockTable m.blockTable
  let maxSeqLen ← amax seqlensK
  let maxQueryLen ← amax seqlensQ
  return (
    { queryStartLoc := 0 :: cumsum 0 seqlensQ
      seqLens := seqlensK
      numReqs := seqlensK.length
      numActualTokens := m.numActualTokens
      maxQueryLen
      maxSeqLen
      blockTable := blockTableLocal
      slotMapping := m.slotMapping
      causal := true
      numComputedTokens := List.zipWith (· - ·) seqlensK seqlensQ }, makeBlockTable)

namespace CommonAttentionMetadata

variable (m : CommonAttentionMetadata)

def queries : List Int :=
  (List.zipWith (fun start stop : Int => (List.range (stop - start).toNat).map fun i : Nat => start + i)
    m.queryStartLoc (m.queryStartLoc.drop 1)).flatten

def HasQuery (request : Nat) (query : Int) : Prop :=
  ∃ start stop, m.queryStartLoc[request]? = some start ∧ m.queryStartLoc[request + 1]? = some stop ∧
    start ≤ query ∧ query < stop

/-- The position of a query in the sequence of its request, of which the queries are the end. -/
def position (request : Nat) (query : Int) : Nat :=
  ((m.seqLens.getD request 0) - (m.queryStartLoc.getD (request + 1) 0 - query)).toNat

def slot (blockSize request key : Nat) : Option Int × Nat :=
  (m.blockTable.rows[request]? >>= fun row => row[key / blockSize]?, key % blockSize)

/-- The keys that a query sees under causal attention. -/
def causalKeys (blockSize request : Nat) (query : Int) : List (Option Int × Nat) :=
  (List.range (m.position request query + 1)).map (m.slot blockSize request)

end CommonAttentionMetadata

end Vllm.Attention
