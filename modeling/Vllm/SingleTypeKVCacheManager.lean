import Vllm.BlockPool
import Vllm.KVCacheInterface

/-! The manager of the blocks of one KV cache group. The class of a manager is determined by its
spec; methods that only some classes override match on the spec. -/

namespace Vllm

structure SingleTypeKVCacheManager where
  kvCacheSpec : KVCacheSpec
  blockSize : Nat
  kvCacheGroupId : Nat
  newBlockIds : List BlockId := []
  reqToBlocks : Dict ReqId (List BlockId) := Dict.empty
  numCachedBlock : Dict ReqId Nat := Dict.empty
  -- `MambaManager` only
  cachedBlocksThisStep : List BlockHashWithGroupId := []
  lastStateBlockIdx : Dict ReqId Int := Dict.empty
  allocatedBlockReqs : List ReqId := []

abbrev HitRow := List BlockId

namespace SingleTypeKVCacheManager

open BlockPool

def blocksOf (m : SingleTypeKVCacheManager) (requestId : ReqId) : List BlockId :=
  m.reqToBlocks.getD requestId []

def setBlocks (m : SingleTypeKVCacheManager) (requestId : ReqId) (blocks : List BlockId) :
    SingleTypeKVCacheManager :=
  { m with reqToBlocks := m.reqToBlocks.set requestId blocks }

def getNumSkippedTokens (m : SingleTypeKVCacheManager) (numComputedTokens : Int) : Int :=
  match m.kvCacheSpec with
  | .slidingWindow _ slidingWindow => max 0 (numComputedTokens - slidingWindow + 1)
  | .chunkedLocalAttention _ attentionChunkSize =>
    numComputedTokens / attentionChunkSize * attentionChunkSize
  | .mamba _ => numComputedTokens - 1
  | _ => 0

def getNumEvictableBlocks (p : BlockPool) (blocks : List BlockId) : Nat :=
  (blocks.filter fun b => p.refCnt b = 0 ∧ b ≠ nullBlock).length

/-- `SingleTypeKVCacheManager.get_num_blocks_to_allocate`. -/
def baseNumBlocksToAllocate (p : BlockPool) (m : SingleTypeKVCacheManager) (requestId : ReqId)
    (numTokens : Int) (newComputedBlocks : List BlockId) (totalComputedTokens : Int) :
    Result Int :=
  let numRequiredBlocks := Py.cdiv numTokens m.blockSize
  let numReqBlocks : Int := (m.blocksOf requestId).length
  if m.numCachedBlock.contains requestId then do
    Result.ensure (newComputedBlocks.length = 0) "len(new_computed_blocks) == 0"
    return max (numRequiredBlocks - numReqBlocks) 0
  else
    let numSkippedTokens := m.getNumSkippedTokens totalComputedTokens
    let numLocalComputedBlocks := newComputedBlocks.length + numReqBlocks
    let numSkippedBlocks := numSkippedTokens / m.blockSize
    let numNewBlocks := max (numRequiredBlocks - max numSkippedBlocks numLocalComputedBlocks) 0
    let numSkippedNewComputedBlocks := max 0 (numSkippedBlocks - numReqBlocks)
    let numEvictableBlocks :=
      getNumEvictableBlocks p (newComputedBlocks.drop numSkippedNewComputedBlocks.toNat)
    .ok (numNewBlocks + numEvictableBlocks)

def alignNumBlocksToAllocate (p : BlockPool) (m : SingleTypeKVCacheManager) (spec : MambaSpec)
    (requestId : ReqId) (newComputedBlocks : List BlockId) (numTokensMainModel : Int) : Int :=
  let numRequiredBlocks := Py.cdiv numTokensMainModel m.blockSize + spec.numSpeculativeBlocks
  let numNewBlocks :=
    numRequiredBlocks - newComputedBlocks.length - (m.blocksOf requestId).length
  let numNewBlocks : Int :=
    if numNewBlocks > 0 then
      if requestId ∈ m.allocatedBlockReqs then 1 else 1 + spec.numSpeculativeBlocks
    else numNewBlocks
  numNewBlocks + getNumEvictableBlocks p newComputedBlocks

/-- `new_computed_blocks[-1].block_hash in self.cached_blocks_this_step`. -/
def hitsThisStep (p : BlockPool) (m : SingleTypeKVCacheManager) (newComputedBlocks : List BlockId) :
    Bool :=
  match newComputedBlocks.getLast? with
  | none => false
  | some block =>
    match p.blockHash block with
    | none => false
    | some key => key ∈ m.cachedBlocksThisStep

def getNumBlocksToAllocate (c : PoolConfig) (p : BlockPool) (m : SingleTypeKVCacheManager)
    (requestId : ReqId) (numTokens : Int) (newComputedBlocks : List BlockId)
    (totalComputedTokens numTokensMainModel : Int) :
    Result (Int × SingleTypeKVCacheManager) :=
  match m.kvCacheSpec with
  | .mamba spec =>
    if hitsThisStep p m newComputedBlocks then .ok (c.numGpuBlocks + 1, m)
    else if spec.mambaCacheMode ≠ .align then do
      let numTokens := numTokens + spec.blockSize * spec.numSpeculativeBlocks
      let n ← baseNumBlocksToAllocate p m requestId numTokens newComputedBlocks totalComputedTokens
      return (n, m)
    else
      .ok (alignNumBlocksToAllocate p m spec requestId newComputedBlocks numTokensMainModel,
        m.setBlocks requestId (m.blocksOf requestId))
  | _ => do
    let n ← baseNumBlocksToAllocate p m requestId numTokens newComputedBlocks totalComputedTokens
    return (n, m)

/-- `type(self.kv_cache_spec) is FullAttentionSpec`: new blocks are recorded for zeroing. -/
def recordNewBlocks (m : SingleTypeKVCacheManager) (blocks : List BlockId) :
    SingleTypeKVCacheManager :=
  match m.kvCacheSpec with
  | .fullAttention .. => { m with newBlockIds := m.newBlockIds ++ blocks }
  | _ => m

/-- The last step of `allocate_new_computed_blocks`: blocks for externally computed tokens. -/
def allocateExternal (c : PoolConfig) (p : BlockPool) (m : SingleTypeKVCacheManager)
    (requestId : ReqId) (numTotalComputedTokens numExternalComputedTokens : Int) :
    Result (BlockPool × SingleTypeKVCacheManager) :=
  if numExternalComputedTokens > 0 then do
    let reqBlocks := m.blocksOf requestId
    let (allocatedBlocks, p) ←
      p.getNewBlocks c (Py.cdiv numTotalComputedTokens m.blockSize - reqBlocks.length)
    return (p, (m.setBlocks requestId (reqBlocks ++ allocatedBlocks)).recordNewBlocks
      allocatedBlocks)
  else .ok (p, m)

def touchComputedBlocks (c : PoolConfig) (p : BlockPool) (newComputedBlocks : List BlockId) :
    Result BlockPool :=
  if c.enableCaching then p.touch newComputedBlocks
  else do
    Result.ensure (newComputedBlocks = [])
      "Computed blocks should be empty when prefix caching is disabled"
    return p

def allocateNewComputedBlocks (c : PoolConfig) (p : BlockPool) (m : SingleTypeKVCacheManager)
    (requestId : ReqId) (newComputedBlocks : List BlockId)
    (numLocalComputedTokens numExternalComputedTokens : Int) :
    Result (BlockPool × SingleTypeKVCacheManager) :=
  if m.kvCacheSpec.isCrossAttention then do
    Result.ensure (newComputedBlocks.length = 0) "len(new_computed_blocks) == 0"
    return (p, m)
  else if m.numCachedBlock.contains requestId then do
    Result.ensure (newComputedBlocks.length = 0) "len(new_computed_blocks) == 0"
    return (p, m)
  else do
    Result.ensure ((m.blocksOf requestId).length = 0) "len(req_blocks) == 0"
    let numTotalComputedTokens := numLocalComputedTokens + numExternalComputedTokens
    let numSkippedTokens := m.getNumSkippedTokens numTotalComputedTokens
    let numSkippedBlocks := numSkippedTokens / m.blockSize
    let newComputedBlocks :=
      if numSkippedBlocks > 0 then newComputedBlocks.drop numSkippedBlocks.toNat
      else newComputedBlocks
    let numExternalComputedTokens :=
      if numSkippedBlocks > 0 then
        min (numTotalComputedTokens - numSkippedTokens) numExternalComputedTokens
      else numExternalComputedTokens
    let p ← touchComputedBlocks c p newComputedBlocks
    let reqBlocks := List.replicate numSkippedBlocks.toNat nullBlock ++ newComputedBlocks
    let m := m.setBlocks requestId reqBlocks
    let m := { m with numCachedBlock := m.numCachedBlock.set requestId reqBlocks.length }
    allocateExternal c p m requestId numTotalComputedTokens numExternalComputedTokens

def baseAllocateNewBlocks (c : PoolConfig) (p : BlockPool) (m : SingleTypeKVCacheManager)
    (requestId : ReqId) (numTokens : Int) :
    Result (List BlockId × BlockPool × SingleTypeKVCacheManager) :=
  let reqBlocks := m.blocksOf requestId
  let numNewBlocks := Py.cdiv numTokens m.blockSize - reqBlocks.length
  if numNewBlocks ≤ 0 then .ok ([], p, m.setBlocks requestId reqBlocks)
  else do
    let (newBlocks, p) ← p.getNewBlocks c numNewBlocks
    return (newBlocks, p, (m.setBlocks requestId (reqBlocks ++ newBlocks)).recordNewBlocks newBlocks)

/-- `req_blocks.append(req_blocks[i]); req_blocks[i] = null_block` while `i` is skipped. -/
def reuseSpeculativeBlocks (numSkippedBlocks : Int) :
    List Int → List BlockId → Result (List BlockId)
  | [], reqBlocks => .ok reqBlocks
  | i :: is, reqBlocks =>
    if i < numSkippedBlocks then
      match Py.index reqBlocks.length i with
      | none => .error .indexError
      | some j =>
        -- a negative index denotes another element once the list has grown
        let reqBlocks := reqBlocks ++ [reqBlocks.getD j nullBlock]
        let k := (Py.index reqBlocks.length i).getD 0
        reuseSpeculativeBlocks numSkippedBlocks is (reqBlocks.set k nullBlock)
    else .ok reqBlocks

def recordLastState (m : SingleTypeKVCacheManager) (spec : MambaSpec) (requestId : ReqId)
    (prevBlockLen : Nat) : SingleTypeKVCacheManager :=
  if requestId ∈ m.allocatedBlockReqs then
    { m with
      lastStateBlockIdx :=
        m.lastStateBlockIdx.set requestId (prevBlockLen - 1 - spec.numSpeculativeBlocks) }
  else if prevBlockLen > 0 then
    { m with lastStateBlockIdx := m.lastStateBlockIdx.set requestId (prevBlockLen - 1) }
  else m

/-- `MambaManager.allocate_new_blocks` in align mode. -/
def alignAllocateNewBlocks (c : PoolConfig) (p : BlockPool) (m : SingleTypeKVCacheManager)
    (spec : MambaSpec) (requestId : ReqId) (numTokensMainModel : Int) :
    Result (List BlockId × BlockPool × SingleTypeKVCacheManager) :=
  let reqBlocks := m.blocksOf requestId
  let numRequiredBlocks := Py.cdiv numTokensMainModel m.blockSize + spec.numSpeculativeBlocks
  if numRequiredBlocks = reqBlocks.length then .ok ([], p, m.setBlocks requestId reqBlocks)
  else do
    Result.ensure (numRequiredBlocks > reqBlocks.length) "num_required_blocks"
    let prevBlockLen := reqBlocks.length
    let blocksAllocated := requestId ∈ m.allocatedBlockReqs
    let m := m.recordLastState spec requestId prevBlockLen
    let numSkippedBlocks := numRequiredBlocks - spec.numSpeculativeBlocks - 1
    let reqBlocks :=
      reqBlocks ++ List.replicate (numSkippedBlocks - prevBlockLen).toNat nullBlock
    let reused :=
      if blocksAllocated then
        reuseSpeculativeBlocks numSkippedBlocks
          ((List.range spec.numSpeculativeBlocks).map fun k : Nat =>
            (prevBlockLen : Int) - spec.numSpeculativeBlocks + k) reqBlocks
      else .ok reqBlocks
    let reqBlocks ← reused
    let numNewBlocks := numRequiredBlocks - reqBlocks.length
    Result.ensure (numNewBlocks ≤ if blocksAllocated then 1 else spec.numSpeculativeBlocks + 1)
      "num_new_blocks"
    let (newBlocks, p) ← p.getNewBlocks c numNewBlocks
    let reqBlocks := reqBlocks ++ newBlocks
    let m := m.setBlocks requestId reqBlocks
    return (reqBlocks.drop prevBlockLen, p,
      { m with allocatedBlockReqs := m.allocatedBlockReqs.insert requestId })

def allocateNewBlocks (c : PoolConfig) (p : BlockPool) (m : SingleTypeKVCacheManager)
    (requestId : ReqId) (numTokens numTokensMainModel : Int) :
    Result (List BlockId × BlockPool × SingleTypeKVCacheManager) :=
  match m.kvCacheSpec with
  | .mamba spec =>
    if spec.mambaCacheMode ≠ .align then
      baseAllocateNewBlocks c p m requestId
        (numTokens + m.blockSize * spec.numSpeculativeBlocks)
    else alignAllocateNewBlocks c p m spec requestId numTokensMainModel
  | _ => baseAllocateNewBlocks c p m requestId numTokens

def takeNewBlockIds (m : SingleTypeKVCacheManager) : List BlockId × SingleTypeKVCacheManager :=
  (m.newBlockIds, { m with newBlockIds := [] })

def baseCacheBlocks (c : PoolConfig) (p : BlockPool) (m : SingleTypeKVCacheManager)
    (request : Request) (numTokens : Int) : Result (BlockPool × SingleTypeKVCacheManager) :=
  let numCachedBlocks := m.numCachedBlock.getD request.requestId 0
  let numFullBlocks := numTokens / m.blockSize
  if (numCachedBlocks : Int) ≥ numFullBlocks then .ok (p, m)
  else do
    let blocks := m.blocksOf request.requestId
    let m := m.setBlocks request.requestId blocks
    let p ← p.cacheFullBlocks c request blocks numCachedBlocks numFullBlocks.toNat m.blockSize
      m.kvCacheGroupId
    return (p, { m with
      numCachedBlock := m.numCachedBlock.set request.requestId numFullBlocks.toNat })

def hashesOf (p : BlockPool) : List BlockId → Result (List BlockHashWithGroupId)
  | [] => .ok []
  | b :: bs =>
    if b = nullBlock then hashesOf p bs
    else
      match p.blockHash b with
      | none => .error (.assertionError "block.block_hash is not None")
      | some key => do
        let keys ← hashesOf p bs
        return key :: keys

def cacheBlocks (c : PoolConfig) (p : BlockPool) (m : SingleTypeKVCacheManager)
    (request : Request) (numTokens : Int) : Result (BlockPool × SingleTypeKVCacheManager) :=
  match m.kvCacheSpec with
  | .crossAttention _ =>
    .error (.valueError "Should not be called as prefix caching is disabled.")
  | .mamba _ => do
    let before := m.numCachedBlock.getD request.requestId 0
    let (p, m) ← baseCacheBlocks c p m request numTokens
    let after := m.numCachedBlock.getD request.requestId 0
    if after > before then
      let keys ← hashesOf p (((m.blocksOf request.requestId).take after).drop before)
      return (p, { m with cachedBlocksThisStep := m.cachedBlocksThisStep ++ keys })
    else return (p, m)
  | _ => baseCacheBlocks c p m request numTokens

/-- What `MambaManager.free` forgets in align mode before it frees the blocks. -/
def forgetState (m : SingleTypeKVCacheManager) (requestId : ReqId) : SingleTypeKVCacheManager :=
  match m.kvCacheSpec with
  | .mamba spec =>
    if spec.mambaCacheMode = .align then
      { m with
        allocatedBlockReqs := m.allocatedBlockReqs.filter (· ≠ requestId)
        lastStateBlockIdx := m.lastStateBlockIdx.erase requestId }
    else m
  | _ => m

def free (p : BlockPool) (m : SingleTypeKVCacheManager) (requestId : ReqId) :
    BlockPool × SingleTypeKVCacheManager :=
  let m := m.forgetState requestId
  (p.freeBlocks (m.blocksOf requestId).reverse,
    { m with
      reqToBlocks := m.reqToBlocks.erase requestId
      numCachedBlock := m.numCachedBlock.erase requestId })

/-- The loop of `remove_skipped_blocks` from index `n - 1` down: the removed blocks and the list
with null blocks in their place. -/
def nullSkipped : Nat → List BlockId → List BlockId × List BlockId
  | 0, blocks => ([], blocks)
  | i + 1, blocks =>
    match blocks[i]? with
    | none => ([], blocks)
    | some b =>
      if b = nullBlock then ([], blocks)
      else
        let (removed, blocks) := nullSkipped i (blocks.set i nullBlock)
        (b :: removed, blocks)

def baseRemoveSkippedBlocks (p : BlockPool) (m : SingleTypeKVCacheManager) (requestId : ReqId)
    (totalComputedTokens : Int) : BlockPool × SingleTypeKVCacheManager :=
  let numSkippedTokens := m.getNumSkippedTokens totalComputedTokens
  if numSkippedTokens ≤ 0 then (p, m)
  else
    let blocks := m.blocksOf requestId
    let numSkippedBlocks := min (numSkippedTokens / m.blockSize) blocks.length
    let (removed, blocks) := nullSkipped numSkippedBlocks.toNat blocks
    (p.freeBlocks removed, m.setBlocks requestId blocks)

def freeLastState (p : BlockPool) (m : SingleTypeKVCacheManager) (requestId : ReqId)
    (numComputedTokens : Int) : Result (BlockPool × SingleTypeKVCacheManager) :=
  match m.lastStateBlockIdx.get? requestId with
  | none => .ok (p, m)
  | some lastStateBlockIdx =>
    if lastStateBlockIdx < Py.cdiv numComputedTokens m.blockSize - 1 then
      let blocks := m.blocksOf requestId
      match Py.index blocks.length lastStateBlockIdx with
      | none => .error .indexError
      | some j =>
        let block := blocks.getD j nullBlock
        if block ≠ nullBlock then
          .ok (p.freeBlocks [block], m.setBlocks requestId (blocks.set j nullBlock))
        else .ok (p, m.setBlocks requestId blocks)
    else .ok (p, m)

def removeSkippedBlocks (p : BlockPool) (m : SingleTypeKVCacheManager) (requestId : ReqId)
    (totalComputedTokens : Int) : Result (BlockPool × SingleTypeKVCacheManager) :=
  match m.kvCacheSpec with
  | .mamba spec =>
    let numComputedTokens := max 0 (totalComputedTokens - spec.numSpeculativeBlocks)
    let (p, m) := baseRemoveSkippedBlocks p m requestId numComputedTokens
    if spec.mambaCacheMode = .align then freeLastState p m requestId numComputedTokens
    else .ok (p, m)
  | _ => .ok (baseRemoveSkippedBlocks p m requestId totalComputedTokens)

def newStepStarts (m : SingleTypeKVCacheManager) : SingleTypeKVCacheManager :=
  match m.kvCacheSpec with
  | .mamba _ => { m with cachedBlocksThisStep := [] }
  | _ => m

def getNumCommonPrefixBlocks (p : BlockPool) (m : SingleTypeKVCacheManager)
    (runningRequestId : ReqId) : Nat × SingleTypeKVCacheManager :=
  if m.kvCacheSpec.isFullAttention then
    let blocks := m.blocksOf runningRequestId
    let m := m.setBlocks runningRequestId blocks
    ((blocks.takeWhile fun b => p.refCnt b = m.reqToBlocks.size).length, m)
  else (0, m)

end SingleTypeKVCacheManager

end Vllm
