import Mathlib.Algebra.Group.Nat.Defs
import Vllm.BlockHash
import Vllm.Lib.Result

/-! The pool of KV cache blocks: reference counts, the free queue in eviction order and the map
from block hashes to cached blocks. -/

namespace Vllm

abbrev BlockId := Nat

abbrev BlockHashWithGroupId := Bytes

def groupIdBytes (groupId : Nat) : Bytes :=
  [UInt8.ofNat (groupId / 2 ^ 24), UInt8.ofNat (groupId / 2 ^ 16), UInt8.ofNat (groupId / 2 ^ 8),
    UInt8.ofNat groupId]

def makeBlockHashWithGroupId (blockHash : BlockHash) (groupId : Nat) : BlockHashWithGroupId :=
  blockHash ++ groupIdBytes groupId

def getBlockHash (key : BlockHashWithGroupId) : BlockHash := key.take (key.length - 4)

inductive ExternalBlockHash
  | bytes (b : BlockHash)
  | int (n : Nat)
  deriving DecidableEq, Repr

def maybeConvertBlockHash (useIntBlockHashes : Bool) (hashBytes : BlockHash) : ExternalBlockHash :=
  if useIntBlockHashes then .int (hashBytes.foldl (fun n b => n * 256 + b.toNat) 0 % 2 ^ 64)
  else .bytes hashBytes

inductive KVCacheEvent
  | blockStored (blockHashes : List ExternalBlockHash) (parentBlockHash : Option ExternalBlockHash)
      (tokenIds : List Token) (blockSize : Nat) (loraId : Option Nat) (loraName : Option String)
      (extraKeys : Option (List ExtraKeys))
  | blockRemoved (blockHashes : List ExternalBlockHash)
  | allBlocksCleared
  deriving DecidableEq, Repr

structure PoolConfig where
  numGpuBlocks : Nat
  enableCaching : Bool
  hashBlockSize : Nat
  enableKvCacheEvents : Bool := false
  useIntBlockHashes : Bool := false
  sha256 : Bytes → Bytes := id

structure BlockPool where
  refCnt : BlockId → Int
  blockHash : BlockId → Option BlockHashWithGroupId
  freeBlockQueue : List BlockId
  numFreeBlocks : Int
  /-- The blocks stored under a key, first inserted first; no block means no entry. -/
  cachedBlockHashToBlock : BlockHashWithGroupId → List BlockId
  kvEventQueue : List KVCacheEvent

namespace BlockPool

def nullBlock : BlockId := 0

def init (c : PoolConfig) : BlockPool where
  refCnt _ := 0
  blockHash _ := none
  freeBlockQueue := List.range' 1 (c.numGpuBlocks - 1)
  numFreeBlocks := c.numGpuBlocks - 1
  cachedBlockHashToBlock _ := []
  kvEventQueue := []

def getOneBlock (p : BlockPool) (key : BlockHashWithGroupId) : Option BlockId :=
  (p.cachedBlockHashToBlock key).head?

def insert (p : BlockPool) (key : BlockHashWithGroupId) (block : BlockId) : BlockPool :=
  let blocks := p.cachedBlockHashToBlock key
  { p with
    cachedBlockHashToBlock := Function.update p.cachedBlockHashToBlock key
      (if block ∈ blocks then blocks else blocks ++ [block]) }

/-- One cached block for each group, or `none` on a miss in any group. -/
def getCachedBlock (p : BlockPool) (blockHash : BlockHash) : List Nat → Option (List BlockId)
  | [] => some []
  | groupId :: groupIds => do
    let block ← p.getOneBlock (makeBlockHashWithGroupId blockHash groupId)
    let blocks ← p.getCachedBlock blockHash groupIds
    return block :: blocks

def pushEvent (c : PoolConfig) (p : BlockPool) (e : KVCacheEvent) : BlockPool :=
  if c.enableKvCacheEvents then { p with kvEventQueue := p.kvEventQueue ++ [e] } else p

def coarseBlockHashes (factor : Nat) (blockHashes : List BlockHash) : List BlockHash :=
  (List.range (blockHashes.length / factor)).map fun i =>
    ((blockHashes.drop (i * factor)).take factor).flatten

def blockHashesFor (c : PoolConfig) (blockSize : Nat) (blockHashes : List BlockHash) :
    List BlockHash :=
  if blockSize = c.hashBlockSize then blockHashes
  else coarseBlockHashes (blockSize / c.hashBlockSize) blockHashes

/-- The loop of `cache_full_blocks` over the new full blocks. It returns the new hashes. -/
def cacheNewFullBlocks (groupId : Nat) :
    BlockPool → List BlockId → List BlockHash → Result (BlockPool × List BlockHash)
  | p, [], _ => .ok (p, [])
  | p, blk :: blks, hashes =>
    if blk = nullBlock then cacheNewFullBlocks groupId p blks hashes.tail
    else do
      Result.ensure (p.blockHash blk = none) "blk.block_hash is None"
      let blockHash ← Result.getItem hashes 0
      let key := makeBlockHashWithGroupId blockHash groupId
      let p := { p with blockHash := Function.update p.blockHash blk (some key) }
      let (p, newHashes) ← cacheNewFullBlocks groupId (p.insert key blk) blks hashes.tail
      return (p, blockHash :: newHashes)

def extraKeysList (c : PoolConfig) (request : Request) (blocks : List BlockId) (blockSize : Nat) :
    Nat → Nat → Int → Result (List ExtraKeys)
  | 0, _, _ => .ok []
  | n + 1, i, currMmIdx => do
    let blk ← Result.getItem blocks i
    if blk = nullBlock then extraKeysList c request blocks blockSize n (i + 1) currMmIdx
    else
      let (extraKeys, currMmIdx) := generateBlockHashExtraKeys c.sha256 request (i * blockSize)
        (i * blockSize + blockSize) currMmIdx
      let rest ← extraKeysList c request blocks blockSize n (i + 1) currMmIdx
      return extraKeys :: rest

/-- The `BlockStored` event of `cache_full_blocks`. -/
def storedEvent (c : PoolConfig) (request : Request) (blocks : List BlockId)
    (numCachedBlocks numFullBlocks blockSize : Nat) (blockHashes newHashes : List BlockHash) :
    Result KVCacheEvent := do
  let parentBlockHash ←
    if numCachedBlocks = 0 then pure none
    else some <$> Result.getItem blockHashes (numCachedBlocks - 1)
  let extraKeys ←
    extraKeysList c request blocks blockSize (numFullBlocks - numCachedBlocks) numCachedBlocks 0
  return .blockStored (newHashes.map (maybeConvertBlockHash c.useIntBlockHashes))
    (parentBlockHash.map (maybeConvertBlockHash c.useIntBlockHashes))
    ((request.allTokenIds.take (numFullBlocks * blockSize)).drop (numCachedBlocks * blockSize))
    blockSize (request.loraRequest.map LoRARequest.loraIntId)
    (request.loraRequest.map LoRARequest.loraName)
    (if extraKeys = [] then none else some extraKeys)

def cacheFullBlocks (c : PoolConfig) (p : BlockPool) (request : Request) (blocks : List BlockId)
    (numCachedBlocks numFullBlocks blockSize kvCacheGroupId : Nat) : Result BlockPool :=
  if numCachedBlocks ≥ numFullBlocks then .ok p
  else do
    let newFullBlocks := (blocks.take numFullBlocks).drop numCachedBlocks
    Result.ensure (request.blockHashes.length ≥ numFullBlocks) "len(request.block_hashes)"
    Result.ensure (blockSize = c.hashBlockSize ∨ blockSize % c.hashBlockSize = 0) "block_size"
    let blockHashes := blockHashesFor c blockSize request.blockHashes
    let (p, newHashes) ←
      cacheNewFullBlocks kvCacheGroupId p newFullBlocks (blockHashes.drop numCachedBlocks)
    if c.enableKvCacheEvents then do
      let event ← storedEvent c request blocks numCachedBlocks numFullBlocks blockSize blockHashes
        newHashes
      return p.pushEvent c event
    else return p

def maybeEvictCachedBlock (c : PoolConfig) (p : BlockPool) (block : BlockId) : BlockPool :=
  match p.blockHash block with
  | none => p
  | some key =>
    if block ∈ p.cachedBlockHashToBlock key then
      pushEvent c
        { p with
          cachedBlockHashToBlock := Function.update p.cachedBlockHashToBlock key
            ((p.cachedBlockHashToBlock key).erase block)
          blockHash := Function.update p.blockHash block none }
        (.blockRemoved [maybeConvertBlockHash c.useIntBlockHashes (getBlockHash key)])
    else p

def claimBlock (c : PoolConfig) (p : BlockPool) (block : BlockId) : Result BlockPool := do
  let p := if c.enableCaching then p.maybeEvictCachedBlock c block else p
  Result.ensure (p.refCnt block = 0) "block.ref_cnt == 0"
  return { p with refCnt := Function.update p.refCnt block (p.refCnt block + 1) }

/-- `free_block_queue.popleft_n(n)`. The queue is a list here; the linked list would run into its
fake tail where the list is shorter than its counter. -/
def popleftN (p : BlockPool) (n : Int) : Result (List BlockId × BlockPool) :=
  if n = 0 then .ok ([], p)
  else do
    Result.ensure (p.numFreeBlocks ≥ n) "self.num_free_blocks >= n"
    Result.ensure (n ≤ p.freeBlockQueue.length) "curr_block is not None"
    return (p.freeBlockQueue.take n.toNat,
      { p with
        freeBlockQueue := p.freeBlockQueue.drop n.toNat
        numFreeBlocks := p.numFreeBlocks - n })

def getNewBlocks (c : PoolConfig) (p : BlockPool) (numBlocks : Int) :
    Result (List BlockId × BlockPool) :=
  if numBlocks > p.numFreeBlocks then
    .error (.valueError s!"Cannot get {numBlocks} free blocks from the pool")
  else do
    let (ret, p) ← p.popleftN numBlocks
    let p ← ret.foldlM (claimBlock c) p
    return (ret, p)

def touchBlock (p : BlockPool) (block : BlockId) : Result BlockPool :=
  if p.refCnt block = 0 ∧ block ≠ nullBlock then
    if block ∈ p.freeBlockQueue then
      .ok
        { p with
          freeBlockQueue := p.freeBlockQueue.erase block
          numFreeBlocks := p.numFreeBlocks - 1
          refCnt := Function.update p.refCnt block (p.refCnt block + 1) }
    else .error (.runtimeError "remove() called on an invalid block")
  else .ok { p with refCnt := Function.update p.refCnt block (p.refCnt block + 1) }

def touch (p : BlockPool) (blocks : List BlockId) : Result BlockPool := blocks.foldlM touchBlock p

def decRef (refCnt : BlockId → Int) (block : BlockId) : BlockId → Int :=
  Function.update refCnt block (refCnt block - 1)

def freeBlocks (p : BlockPool) (orderedBlocks : List BlockId) : BlockPool :=
  let refCnt := orderedBlocks.foldl decRef p.refCnt
  let freed := orderedBlocks.filter fun b => refCnt b = 0 ∧ b ≠ nullBlock
  { p with
    refCnt
    freeBlockQueue := p.freeBlockQueue ++ freed
    numFreeBlocks := p.numFreeBlocks + freed.length }

def evictBlocks (c : PoolConfig) (p : BlockPool) : List BlockId → Result BlockPool
  | [] => .ok p
  | blockId :: blockIds => do
    Result.ensure (blockId < c.numGpuBlocks)
      s!"Invalid block_id {blockId} >= {c.numGpuBlocks}. This indicates a bug in the KV connector"
    evictBlocks c (p.maybeEvictCachedBlock c blockId) blockIds

def resetPrefixCache (c : PoolConfig) (p : BlockPool) : Bool × BlockPool :=
  if (c.numGpuBlocks : Int) - p.numFreeBlocks ≠ 1 then (false, p)
  else
    (true, pushEvent c
      { p with cachedBlockHashToBlock := fun _ => [], blockHash := fun _ => none }
      .allBlocksCleared)

def takeEvents (c : PoolConfig) (p : BlockPool) : List KVCacheEvent × BlockPool :=
  if c.enableKvCacheEvents then (p.kvEventQueue, { p with kvEventQueue := [] }) else ([], p)

end BlockPool

end Vllm
