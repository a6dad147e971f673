import Vllm.CacheHit

/-! The KV cache manager over all groups, with its three kinds of coordinators. -/

namespace Vllm

open BlockPool

structure KVCacheManagerConfig extends PoolConfig where
  maxModelLen : Nat
  useEagle : Bool
  kvCacheGroups : List KVCacheSpec
  dcpWorldSize : Nat := 1
  pcpWorldSize : Nat := 1

structure KVCacheManager where
  blockPool : BlockPool
  singleTypeManagers : List SingleTypeKVCacheManager

/-- An element of `attention_groups`: a spec with the ids of the groups that have it. -/
structure AttentionGroup where
  spec : KVCacheSpec
  groupIds : List Nat

namespace KVCacheManagerConfig

variable (c : KVCacheManagerConfig)

def worldSize : Nat := c.dcpWorldSize * c.pcpWorldSize

def managerBlockSize (spec : KVCacheSpec) : Nat :=
  if c.worldSize > 1 then spec.blockSize * c.worldSize else spec.blockSize

def newManager (spec : KVCacheSpec) (kvCacheGroupId : Nat) : SingleTypeKVCacheManager :=
  { kvCacheSpec := spec, blockSize := c.managerBlockSize spec, kvCacheGroupId }

def init : KVCacheManager where
  blockPool := BlockPool.init c.toPoolConfig
  singleTypeManagers := c.kvCacheGroups.mapIdx fun i spec => c.newManager spec i

/-- The loop of `verify_and_split_kv_cache_groups`. -/
def addToGroups (spec : KVCacheSpec) (i : Nat) : List AttentionGroup → List AttentionGroup
  | [] => [⟨spec, [i]⟩]
  | g :: gs =>
    if g.spec = spec then { g with groupIds := g.groupIds ++ [i] } :: gs
    else g :: addToGroups spec i gs

def splitGroups : List AttentionGroup :=
  c.kvCacheGroups.zipIdx.foldl (fun gs p => addToGroups p.1 p.2 gs) []

def attentionGroups : List AttentionGroup :=
  c.splitGroups.filter (·.spec.isFullAttention) ++ c.splitGroups.filter (!·.spec.isFullAttention)

def lcmBlockSize : Nat := (c.splitGroups.map (·.spec.blockSize)).foldl Nat.lcm 1

def isSimpleHybrid : Bool :=
  match c.attentionGroups with
  | [g, _] => g.spec.isFullAttention
  | _ => false

def lookup (pool : BlockPool) (blockHashes : List BlockHash) (g : AttentionGroup) :
    CacheHit.Lookup where
  pool
  groupIds := g.groupIds
  blockHashes := blockHashesFor c.toPoolConfig g.spec.blockSize blockHashes
  blockSize := g.spec.blockSize
  alignmentTokens := c.lcmBlockSize
  useEagle := c.useEagle

end KVCacheManagerConfig

abbrev HitBlocks := Nat → Option (List BlockId)

def assignColumns (rows : List HitRow) (groupIds : List Nat) (byGroup : HitBlocks) : HitBlocks :=
  groupIds.zipIdx.foldl
    (fun byGroup p => Function.update byGroup p.1 (some (CacheHit.column rows p.2))) byGroup

namespace KVCacheManager

variable (c : KVCacheManagerConfig)

def hybridPass (pool : BlockPool) (blockHashes : List BlockHash) :
    List AttentionGroup → Int → HitBlocks → Result (Int × HitBlocks)
  | [], currHitLength, byGroup => .ok (currHitLength, byGroup)
  | g :: gs, currHitLength, byGroup =>
    if g.spec.isFullAttention ∧ ((g.groupIds.head?.bind byGroup).isSome) then
      hybridPass pool blockHashes gs (currHitLength / g.spec.blockSize * g.spec.blockSize) byGroup
    else do
      let rows ← CacheHit.find g.spec (c.lookup pool blockHashes g) currHitLength
      hybridPass pool blockHashes gs (rows.length * g.spec.blockSize)
        (assignColumns rows g.groupIds byGroup)

/-- The `while True` loop. The hit length drops in every round but the last. -/
def hybridLoop (pool : BlockPool) (blockHashes : List BlockHash) :
    Nat → Int → HitBlocks → Result (Int × HitBlocks)
  | 0, _, _ => .error (.runtimeError "out of fuel")
  | fuel + 1, hitLength, byGroup => do
    let (currHitLength, byGroup) ←
      hybridPass c pool blockHashes c.attentionGroups hitLength byGroup
    if currHitLength ≥ hitLength then return (hitLength, byGroup)
    else if c.isSimpleHybrid then return (currHitLength, byGroup)
    else hybridLoop pool blockHashes fuel currHitLength byGroup

def truncateFull (hitLength : Int) (byGroup : HitBlocks) : HitBlocks :=
  match c.attentionGroups with
  | g :: _ =>
    if g.spec.isFullAttention then fun i =>
      if i ∈ g.groupIds then
        (byGroup i).map (List.take (hitLength / g.spec.blockSize).toNat)
      else byGroup i
    else byGroup
  | [] => byGroup

def hybridFind (pool : BlockPool) (blockHashes : List BlockHash) (maxCacheHitLength : Int) :
    Result (List (List BlockId) × Int) := do
  let (hitLength, byGroup) ←
    hybridLoop c pool blockHashes (maxCacheHitLength.toNat + 2) maxCacheHitLength fun _ => none
  let byGroup := truncateFull c hitLength byGroup
  return ((List.range c.kvCacheGroups.length).map fun i => (byGroup i).getD [], hitLength)

def unitaryFind (pool : BlockPool) (spec : KVCacheSpec) (blockHashes : List BlockHash)
    (maxCacheHitLength : Int) : Result (List (List BlockId) × Int) := do
  let blockSize := c.managerBlockSize spec
  let rows ← CacheHit.find spec
    { pool, groupIds := [0], blockHashes, blockSize, alignmentTokens := blockSize,
      useEagle := c.useEagle } maxCacheHitLength
  return ([CacheHit.column rows 0], rows.length * blockSize)

def findLongestCacheHit (pool : BlockPool) (blockHashes : List BlockHash)
    (maxCacheHitLength : Int) : Result (List (List BlockId) × Int) :=
  if c.enableCaching then
    match c.kvCacheGroups with
    | [spec] => unitaryFind c pool spec blockHashes maxCacheHitLength
    | _ => hybridFind c pool blockHashes maxCacheHitLength
  else .ok (c.kvCacheGroups.map fun _ => [], 0)

def getComputedBlocks (s : KVCacheManager) (request : Request) :
    Result (List (List BlockId) × Int) :=
  if !c.enableCaching || request.skipReadingPrefixCache then .ok (c.kvCacheGroups.map fun _ => [], 0)
  else findLongestCacheHit c s.blockPool request.blockHashes (request.numTokens - 1)

def forManagers {β : Type} (f : Nat → BlockPool → SingleTypeKVCacheManager →
      Result (β × BlockPool × SingleTypeKVCacheManager)) :
    Nat → BlockPool → List SingleTypeKVCacheManager →
      Result (List β × BlockPool × List SingleTypeKVCacheManager)
  | _, p, [] => .ok ([], p, [])
  | i, p, m :: ms => do
    let (b, p, m) ← f i p m
    let (bs, p, ms) ← forManagers f (i + 1) p ms
    return (b :: bs, p, m :: ms)

def eachManager {β : Type} (s : KVCacheManager)
    (f : Nat → BlockPool → SingleTypeKVCacheManager →
      Result (β × BlockPool × SingleTypeKVCacheManager)) : Result (List β × KVCacheManager) := do
  let (bs, blockPool, singleTypeManagers) ← forManagers f 0 s.blockPool s.singleTypeManagers
  return (bs, { blockPool, singleTypeManagers })

theorem forManagers_avoids {E : PyError → Prop} {β : Type} {f : Nat → BlockPool → SingleTypeKVCacheManager →
      Result (β × BlockPool × SingleTypeKVCacheManager)}
    (hf : ∀ i p m, Result.Avoids E (f i p m)) {i : Nat} {p : BlockPool}
    {ms : List SingleTypeKVCacheManager} : Result.Avoids E (forManagers f i p ms) := by
  induction ms generalizing i p with
  | nil => simp [forManagers]
  | cons m ms ih => simp [forManagers, ih, hf]

theorem eachManager_avoids {E : PyError → Prop} {s : KVCacheManager} {β : Type}
    {f : Nat → BlockPool → SingleTypeKVCacheManager →
      Result (β × BlockPool × SingleTypeKVCacheManager)}
    (hf : ∀ i p m, Result.Avoids E (f i p m)) : Result.Avoids E (s.eachManager f) := by
  simp [eachManager, forManagers_avoids hf]

def removeSkippedBlocks (s : KVCacheManager) (requestId : ReqId) (totalComputedTokens : Int) :
    Result KVCacheManager := do
  let (_, s) ← s.eachManager fun _ p m => do
    let (p, m) ← m.removeSkippedBlocks p requestId totalComputedTokens
    return ((), p, m)
  return s

def getNumBlocksToAllocate (s : KVCacheManager) (requestId : ReqId) (numTokens : Int)
    (newComputedBlocks : List (List BlockId))
    (numEncoderTokens totalComputedTokens numTokensMainModel : Int) :
    Result (Int × KVCacheManager) := do
  let (ns, s) ← s.eachManager fun i p m => do
    let (n, m) ←
      if m.kvCacheSpec.isCrossAttention then
        m.getNumBlocksToAllocate c.toPoolConfig p requestId numEncoderTokens [] 0 numEncoderTokens
      else
        m.getNumBlocksToAllocate c.toPoolConfig p requestId numTokens (newComputedBlocks.getD i [])
          totalComputedTokens numTokensMainModel
    return (n, p, m)
  return (ns.sum, s)

def allocateNewComputedBlocks (s : KVCacheManager) (requestId : ReqId)
    (newComputedBlocks : List (List BlockId))
    (numLocalComputedTokens numExternalComputedTokens : Int) : Result KVCacheManager := do
  let (_, s) ← s.eachManager fun i p m => do
    let (p, m) ← m.allocateNewComputedBlocks c.toPoolConfig p requestId
      (newComputedBlocks.getD i []) numLocalComputedTokens numExternalComputedTokens
    return ((), p, m)
  return s

def allocateNewBlocks (s : KVCacheManager) (requestId : ReqId)
    (numTokens numTokensMainModel numEncoderTokens : Int) :
    Result (List (List BlockId) × KVCacheManager) :=
  s.eachManager fun _ p m =>
    m.allocateNewBlocks c.toPoolConfig p requestId
      (if m.kvCacheSpec.isCrossAttention then numEncoderTokens else numTokens) numTokensMainModel

/-- `coordinator.cache_blocks`. -/
def coordinatorCacheBlocks (s : KVCacheManager) (request : Request) (numComputedTokens : Int) :
    Result KVCacheManager := do
  let (_, s) ← s.eachManager fun _ p m => do
    let (p, m) ← m.cacheBlocks c.toPoolConfig p request numComputedTokens
    return ((), p, m)
  return s

def cacheBlocks (s : KVCacheManager) (request : Request) (numComputedTokens : Int) :
    Result KVCacheManager :=
  if c.enableCaching then s.coordinatorCacheBlocks c request numComputedTokens else .ok s

/-- The optional arguments of `allocate_slots`. No new computed blocks stand for the shared empty
`KVCacheBlocks`. -/
structure SlotArgs where
  numNewComputedTokens : Int := 0
  newComputedBlocks : List (List BlockId) := []
  numLookaheadTokens : Int := 0
  numExternalComputedTokens : Int := 0
  delayCacheBlocks : Bool := false
  numEncoderTokens : Int := 0

def addComputedBlocks (s : KVCacheManager) (request : Request) (args : SlotArgs) :
    Result KVCacheManager :=
  if args.newComputedBlocks.any (· ≠ []) ∨ args.numExternalComputedTokens > 0 then
    s.allocateNewComputedBlocks c request.requestId args.newComputedBlocks
      (request.numComputedTokens + args.numNewComputedTokens) args.numExternalComputedTokens
  else .ok s

/-- The part of `allocate_slots` after the test that there are enough free blocks. -/
def takeSlots (s : KVCacheManager) (request : Request) (numNewTokens : Int) (args : SlotArgs)
    (totalComputedTokens numTokensNeedSlot numTokensMainModel : Int) :
    Result (List (List BlockId) × KVCacheManager) := do
  let s ← s.addComputedBlocks c request args
  let (newBlocks, s) ← s.allocateNewBlocks c request.requestId numTokensNeedSlot numTokensMainModel
    args.numEncoderTokens
  if !c.enableCaching || args.delayCacheBlocks then return (newBlocks, s)
  else
    let numTokensToCache := min (totalComputedTokens + numNewTokens) (request.numTokens : Int)
    let s ← s.coordinatorCacheBlocks c request numTokensToCache
    return (newBlocks, s)

def allocateSlots (s : KVCacheManager) (request : Request) (numNewTokens : Int)
    (args : SlotArgs := {}) : Result (Option (List (List BlockId)) × KVCacheManager) :=
  if numNewTokens = 0 ∧ args.numExternalComputedTokens = 0 then
    .error (.valueError
      "num_new_tokens must be greater than 0 when there are no external computed tokens")
  else do
    let numLocalComputedTokens := request.numComputedTokens + args.numNewComputedTokens
    let totalComputedTokens :=
      min (numLocalComputedTokens + args.numExternalComputedTokens) (c.maxModelLen : Int)
    let numTokensMainModel := totalComputedTokens + numNewTokens
    let numTokensNeedSlot :=
      min (numTokensMainModel + args.numLookaheadTokens) (c.maxModelLen : Int)
    let s ← s.removeSkippedBlocks request.requestId totalComputedTokens
    let (numBlocksToAllocate, s) ← s.getNumBlocksToAllocate c request.requestId numTokensNeedSlot
      args.newComputedBlocks args.numEncoderTokens
      (numLocalComputedTokens + args.numExternalComputedTokens) numTokensMainModel
    if numBlocksToAllocate > s.blockPool.numFreeBlocks then return (none, s)
    else
      let (newBlocks, s) ← s.takeSlots c request numNewTokens args totalComputedTokens
        numTokensNeedSlot numTokensMainModel
      return (some newBlocks, s)

def freeFrom (requestId : ReqId) :
    BlockPool → List SingleTypeKVCacheManager → BlockPool × List SingleTypeKVCacheManager
  | p, [] => (p, [])
  | p, m :: ms =>
    let (p, m) := m.free p requestId
    let (p, ms) := freeFrom requestId p ms
    (p, m :: ms)

def free (s : KVCacheManager) (requestId : ReqId) : KVCacheManager :=
  let (blockPool, singleTypeManagers) := freeFrom requestId s.blockPool s.singleTypeManagers
  { blockPool, singleTypeManagers }

def evictBlocks (s : KVCacheManager) (blockIds : List BlockId) : Result KVCacheManager := do
  let blockPool ← s.blockPool.evictBlocks c.toPoolConfig blockIds
  return { s with blockPool }

def resetPrefixCache (s : KVCacheManager) : Bool × KVCacheManager :=
  let (ok, blockPool) := s.blockPool.resetPrefixCache c.toPoolConfig
  (ok, { s with blockPool })

def getBlockIds (s : KVCacheManager) (requestId : ReqId) : List (List BlockId) :=
  s.singleTypeManagers.map fun m => m.blocksOf requestId

def getNumCommonPrefixBlocks (s : KVCacheManager) (runningRequestId : ReqId) :
    List Nat × KVCacheManager :=
  if c.enableCaching then
    let rs := s.singleTypeManagers.map fun m =>
      m.getNumCommonPrefixBlocks s.blockPool runningRequestId
    (rs.map Prod.fst, { s with singleTypeManagers := rs.map Prod.snd })
  else (s.singleTypeManagers.map fun _ => 0, s)

def takeNewBlockIds (s : KVCacheManager) : List BlockId × KVCacheManager :=
  ((s.singleTypeManagers.map SingleTypeKVCacheManager.newBlockIds).flatten,
    { s with singleTypeManagers := s.singleTypeManagers.map fun m => m.takeNewBlockIds.2 })

def newStepStarts (s : KVCacheManager) : KVCacheManager :=
  { s with singleTypeManagers := s.singleTypeManagers.map SingleTypeKVCacheManager.newStepStarts }

end KVCacheManager

end Vllm
