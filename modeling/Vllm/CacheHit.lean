import Vllm.SingleTypeKVCacheManager

/-! `find_longest_cache_hit` of each manager class. The source returns one list of blocks for each
group of the lookup; here the result is a list of rows, one row for each block index. -/

namespace Vllm

namespace CacheHit

open BlockPool

/-- A lookup for the groups `groupIds`, which share a spec. -/
structure Lookup where
  pool : BlockPool
  groupIds : List Nat
  blockHashes : List BlockHash
  blockSize : Nat
  alignmentTokens : Nat
  useEagle : Bool

def Lookup.nullRow (q : Lookup) : HitRow := q.groupIds.map fun _ => nullBlock

def Lookup.hit (q : Lookup) (blockHash : BlockHash) : Option HitRow :=
  match q.pool.getCachedBlock blockHash q.groupIds with
  | some (b :: bs) => some (b :: bs)
  | _ => none

/-- `block_size != alignment_tokens and (length * block_size) % alignment_tokens != 0`. -/
def Lookup.unaligned (q : Lookup) (length : Nat) : Bool :=
  q.blockSize ≠ q.alignmentTokens ∧ length * q.blockSize % q.alignmentTokens ≠ 0

/-- The `while` loop that pops blocks until the length is aligned. -/
def Lookup.alignedLength (q : Lookup) : Nat → Nat
  | 0 => 0
  | n + 1 => if q.unaligned (n + 1) then q.alignedLength n else n + 1

def Lookup.popUnaligned (q : Lookup) (rows : List HitRow) : List HitRow :=
  rows.take (q.alignedLength rows.length)

def Lookup.leadingHits (q : Lookup) : List BlockHash → List HitRow
  | [] => []
  | blockHash :: blockHashes =>
    match q.hit blockHash with
    | some row => row :: q.leadingHits blockHashes
    | none => []

def fullAttention (q : Lookup) (maxLength : Int) : Result (List HitRow) :=
  let maxNumBlocks := maxLength / q.blockSize
  if maxNumBlocks < 0 then .error (.valueError "Stop argument for islice()")
  else
    let computedBlocks := q.leadingHits (q.blockHashes.take maxNumBlocks.toNat)
    let computedBlocks := if q.useEagle then computedBlocks.dropLast else computedBlocks
    .ok (q.popUnaligned computedBlocks)

def slidingScan (q : Lookup) (contiguousBlocks : Int) :
    Nat → List HitRow → Nat → Result (List HitRow × Nat × Bool)
  | 0, rows, numContiguousBlocks => .ok (rows, numContiguousBlocks, false)
  | i + 1, rows, numContiguousBlocks => do
    let blockHash ← Result.getItem q.blockHashes i
    match q.hit blockHash with
    | some row =>
      if numContiguousBlocks = 0 ∧ q.unaligned (i + 1) then
        slidingScan q contiguousBlocks i rows numContiguousBlocks
      else
        let rows := rows.set i row
        let numContiguousBlocks := numContiguousBlocks + 1
        if (numContiguousBlocks : Int) ≥ contiguousBlocks then
          return (rows.take (i + numContiguousBlocks), numContiguousBlocks, true)
        else slidingScan q contiguousBlocks i rows numContiguousBlocks
    | none => slidingScan q contiguousBlocks i rows 0

def slidingWindow (q : Lookup) (window : Nat) (maxLength : Int) : Result (List HitRow) := do
  let contiguousBlocks :=
    Py.cdiv ((window : Int) - 1) q.blockSize + if q.useEagle then 1 else 0
  let maxNumBlocks := (maxLength / q.blockSize).toNat
  let (rows, numContiguousBlocks, matchFound) ←
    slidingScan q contiguousBlocks maxNumBlocks (List.replicate maxNumBlocks q.nullRow) 0
  let rows := if matchFound then rows else q.popUnaligned (rows.take numContiguousBlocks)
  if q.useEagle ∧ rows ≠ [] then
    Result.ensure (q.blockSize = q.alignmentTokens) "aligned_length is not compatible with eagle now"
    return rows.dropLast
  else return rows

def chunkHits (q : Lookup) : Nat → Nat → Result (List HitRow)
  | 0, _ => .ok []
  | n + 1, i => do
    let blockHash ← Result.getItem q.blockHashes i
    match q.hit blockHash with
    | some row =>
      let rows ← chunkHits q n (i + 1)
      return row :: rows
    | none => return []

def chunkedLocalAttention (q : Lookup) (attentionChunkSize : Nat) (maxLength : Int) :
    Result (List HitRow) := do
  Result.ensure (q.useEagle = false)
    "Hybrid KV cache is not supported for eagle + chunked local attention."
  Result.ensure (q.blockSize = q.alignmentTokens)
    "KV cache groups with different block sizes are not compatible with chunked local attention now"
  let maxNumBlocks := (maxLength / q.blockSize).toNat
  let localAttentionStartIdx :=
    if maxLength > 0 then maxLength / attentionChunkSize * attentionChunkSize else 0
  let startBlockIdx := (localAttentionStartIdx / q.blockSize).toNat
  let rows ← chunkHits q (maxNumBlocks - startBlockIdx) startBlockIdx
  return List.replicate startBlockIdx q.nullRow ++ rows

def mambaScan (q : Lookup) : Nat → Result (List HitRow)
  | 0 => .ok []
  | i + 1 => do
    let blockHash ← Result.getItem q.blockHashes i
    match q.hit blockHash with
    | some row =>
      if q.unaligned (i + 1) then mambaScan q i
      else return List.replicate i q.nullRow ++ [row]
    | none => mambaScan q i

/-- `find_longest_cache_hit` of the manager class of `spec`. -/
def find (spec : KVCacheSpec) (q : Lookup) (maxLength : Int) : Result (List HitRow) :=
  match spec with
  | .fullAttention .. | .mlaAttention .. => fullAttention q maxLength
  | .slidingWindow _ window => slidingWindow q window maxLength
  | .chunkedLocalAttention _ attentionChunkSize =>
    chunkedLocalAttention q attentionChunkSize maxLength
  | .mamba _ => mambaScan q (maxLength / q.blockSize).toNat
  | .crossAttention _ =>
    .error (.notImplementedError "CrossAttentionManager does not support caching")

def column (rows : List HitRow) (g : Nat) : List BlockId := rows.map fun row => row.getD g nullBlock

end CacheHit

end Vllm
