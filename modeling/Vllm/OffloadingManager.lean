import Mathlib.Data.Rat.Floor
import Vllm.Lib.Dict
import Vllm.Lib.Result

/-! The two managers of offloaded KV blocks, with the backend that keeps the blocks in CPU memory. -/

namespace Vllm

structure BlockStatus where
  refCnt : Int
  blockId : Nat
  deriving DecidableEq, Repr

namespace BlockStatus

def new (blockId : Nat) : BlockStatus := ⟨-1, blockId⟩

def isReady (b : BlockStatus) : Bool := b.refCnt ≥ 0

/-- An assignment to `ref_cnt`, which is a `c_int32`. -/
def setRefCnt (b : BlockStatus) (n : Int) : BlockStatus := { b with refCnt := n.bmod (2 ^ 32) }

end BlockStatus

structure CPUBackend where
  blockSize : Nat
  numBlocks : Nat
  numAllocatedBlocks : Nat
  allocatedBlocksFreeList : List Nat
  allocated_le : numAllocatedBlocks ≤ numBlocks

namespace CPUBackend

def medium : String := "CPU"

def init (blockSize numBlocks : Nat) : CPUBackend where
  blockSize
  numBlocks
  numAllocatedBlocks := 0
  allocatedBlocksFreeList := []
  allocated_le := Nat.zero_le _

def getNumFreeBlocks (b : CPUBackend) : Nat :=
  b.allocatedBlocksFreeList.length + (b.numBlocks - b.numAllocatedBlocks)

def allocateBlocks (b : CPUBackend) (n : Nat) : Result (List BlockStatus × CPUBackend) := do
  let numFreshBlocks := min n (b.numBlocks - b.numAllocatedBlocks)
  let numReusedBlocks := n - numFreshBlocks
  Result.ensure (b.allocatedBlocksFreeList.length ≥ numReusedBlocks)
    "len(self.allocated_blocks_free_list) >= num_reused_blocks"
  let kept := b.allocatedBlocksFreeList.length - numReusedBlocks
  return ((List.range' b.numAllocatedBlocks numFreshBlocks ++
      (b.allocatedBlocksFreeList.drop kept).reverse).map BlockStatus.new,
    { b with
      numAllocatedBlocks := b.numAllocatedBlocks + numFreshBlocks
      allocatedBlocksFreeList := b.allocatedBlocksFreeList.take kept
      allocated_le := by have := b.allocated_le; omega })

def free (b : CPUBackend) (block : BlockStatus) : CPUBackend :=
  { b with allocatedBlocksFreeList := b.allocatedBlocksFreeList ++ [block.blockId] }

def getLoadStoreSpec (blocks : List BlockStatus) : List Nat := blocks.map BlockStatus.blockId

end CPUBackend

structure OffloadingEvent (κ : Type) where
  blockHashes : List κ
  blockSize : Nat
  medium : String
  removed : Bool
  deriving DecidableEq

structure PrepareStoreOutput (κ : Type) where
  blockHashesToStore : List κ
  storeSpec : List Nat
  blockHashesEvicted : List κ
  deriving DecidableEq

/-- `self.events.append(event)`, unless there are no hashes or no events are kept. -/
def appendEvent {κ : Type} (events : Option (List (OffloadingEvent κ))) (backend : CPUBackend)
    (blockHashes : List κ) (removed : Bool) : Option (List (OffloadingEvent κ)) :=
  match blockHashes with
  | [] => events
  | _ => events.map (· ++ [⟨blockHashes, backend.blockSize, CPUBackend.medium, removed⟩])

def evictable {κ : Type} [DecidableEq κ] (blockHashes : List κ) (e : κ × BlockStatus) : Bool :=
  e.2.refCnt = 0 ∧ e.1 ∉ blockHashes

structure LRUOffloadingManager (κ : Type) where
  backend : CPUBackend
  blocks : Dict κ BlockStatus
  events : Option (List (OffloadingEvent κ))

namespace LRUOffloadingManager

variable {κ : Type} [DecidableEq κ]

def init (backend : CPUBackend) (enableEvents : Bool) : LRUOffloadingManager κ where
  backend
  blocks := .empty
  events := if enableEvents then some [] else none

def lookup (m : LRUOffloadingManager κ) (blockHashes : List κ) : Nat :=
  (blockHashes.takeWhile fun h => (m.blocks.get? h).any BlockStatus.isReady).length

def prepareLoad : LRUOffloadingManager κ → List κ → Result (List Nat × LRUOffloadingManager κ)
  | m, [] => .ok ([], m)
  | m, blockHash :: blockHashes =>
    match m.blocks.get? blockHash with
    | none => .error .keyError
    | some block => do
      Result.ensure (block.isReady = true) "block.is_ready"
      let blocks := m.blocks.set blockHash (block.setRefCnt (block.refCnt + 1))
      let (spec, m) ← prepareLoad { m with blocks } blockHashes
      return (block.blockId :: spec, m)

def touch (m : LRUOffloadingManager κ) (blockHashes : List κ) : LRUOffloadingManager κ :=
  { m with blocks := blockHashes.reverse.foldl Dict.moveToEnd m.blocks }

def completeLoad : LRUOffloadingManager κ → List κ → Result (LRUOffloadingManager κ)
  | m, [] => .ok m
  | m, blockHash :: blockHashes =>
    match m.blocks.get? blockHash with
    | none => .error .keyError
    | some block => do
      Result.ensure (block.refCnt > 0) "block.ref_cnt > 0"
      completeLoad
        { m with blocks := m.blocks.set blockHash (block.setRefCnt (block.refCnt - 1)) } blockHashes

def evict (m : LRUOffloadingManager κ) (blockHash : κ) : LRUOffloadingManager κ :=
  match m.blocks.get? blockHash with
  | none => m
  | some block =>
    { m with backend := m.backend.free block, blocks := m.blocks.erase blockHash }

def prepareStore (m : LRUOffloadingManager κ) (blockHashes : List κ) :
    Result (Option (PrepareStoreOutput κ) × LRUOffloadingManager κ) :=
  let blockHashesToStore := blockHashes.filter fun h => ¬ m.blocks.contains h
  let numBlocksToEvict := blockHashesToStore.length - m.backend.getNumFreeBlocks
  let toEvict :=
    ((m.blocks.items.filter (evictable blockHashes)).take numBlocksToEvict).map Prod.fst
  if toEvict.length < numBlocksToEvict then .ok (none, m)
  else do
    let m := toEvict.foldl evict m
    let events := appendEvent m.events m.backend toEvict true
    let (blocks, backend) ← m.backend.allocateBlocks blockHashesToStore.length
    Result.ensure (blocks.length = blockHashesToStore.length)
      "len(blocks) == len(block_hashes_to_store)"
    return (some ⟨blockHashesToStore, CPUBackend.getLoadStoreSpec blocks, toEvict⟩,
      { m with
        backend, events
        blocks := (blockHashesToStore.zip blocks).foldl (fun d e => d.set e.1 e.2) m.blocks })

/-- The loop of `complete_store` after a success. It returns the hashes that are now stored. -/
def storeSuccess : LRUOffloadingManager κ → List κ → Result (List κ × LRUOffloadingManager κ)
  | m, [] => .ok ([], m)
  | m, blockHash :: blockHashes =>
    match m.blocks.get? blockHash with
    | none => .error .keyError
    | some block =>
      if block.isReady then storeSuccess m blockHashes
      else do
        let (stored, m) ←
          storeSuccess { m with blocks := m.blocks.set blockHash (block.setRefCnt 0) } blockHashes
        return (blockHash :: stored, m)

/-- The loop of `complete_store` after a failure. -/
def storeFailure : LRUOffloadingManager κ → List κ → Result (LRUOffloadingManager κ)
  | m, [] => .ok m
  | m, blockHash :: blockHashes =>
    match m.blocks.get? blockHash with
    | none => .error .keyError
    | some block =>
      if block.isReady then storeFailure m blockHashes
      else storeFailure (m.evict blockHash) blockHashes

def completeStore (m : LRUOffloadingManager κ) (blockHashes : List κ) (success : Bool) :
    Result (LRUOffloadingManager κ) :=
  if success then do
    let (stored, m) ← m.storeSuccess blockHashes
    return { m with events := appendEvent m.events m.backend stored false }
  else m.storeFailure blockHashes

end LRUOffloadingManager

/-- The arithmetic of `target_t1_size`, which is a float. -/
class TargetArith (F : Type) where
  ofNat : Nat → F
  add : F → F → F
  sub : F → F → F
  div : Nat → Nat → F
  max : F → F → F
  min : F → F → F
  trunc : F → Int

instance : TargetArith ℚ where
  ofNat n := n
  add x y := x + y
  sub x y := x - y
  div m n := (m : ℚ) / n
  max := Max.max
  min := Min.min
  trunc x := x.num.tdiv x.den

structure ARCOffloadingManager (F : Type) (κ : Type) where
  backend : CPUBackend
  targetT1Size : F
  t1 : Dict κ BlockStatus
  t2 : Dict κ BlockStatus
  b1 : Dict κ Unit
  b2 : Dict κ Unit
  events : Option (List (OffloadingEvent κ))
  cacheCapacity : Nat

namespace ARCOffloadingManager

variable {F : Type} [TargetArith F] {κ : Type} [DecidableEq κ]

def init (backend : CPUBackend) (enableEvents : Bool) : ARCOffloadingManager F κ where
  backend
  targetT1Size := TargetArith.ofNat 0
  t1 := .empty
  t2 := .empty
  b1 := .empty
  b2 := .empty
  events := if enableEvents then some [] else none
  cacheCapacity := backend.getNumFreeBlocks

def get? (m : ARCOffloadingManager F κ) (blockHash : κ) : Option BlockStatus :=
  (m.t1.get? blockHash).or (m.t2.get? blockHash)

def update (m : ARCOffloadingManager F κ) (blockHash : κ) (block : BlockStatus) :
    ARCOffloadingManager F κ :=
  if m.t1.contains blockHash then { m with t1 := m.t1.set blockHash block }
  else { m with t2 := m.t2.set blockHash block }

def lookup (m : ARCOffloadingManager F κ) (blockHashes : List κ) : Nat :=
  (blockHashes.takeWhile fun h => (m.get? h).any BlockStatus.isReady).length

def prepareLoad : ARCOffloadingManager F κ → List κ → Result (List Nat × ARCOffloadingManager F κ)
  | m, [] => .ok ([], m)
  | m, blockHash :: blockHashes =>
    match m.get? blockHash with
    | none => .error (.assertionError "Block not found in cache")
    | some block => do
      Result.ensure (block.isReady = true) "Block is not ready for reading"
      let (spec, m) ←
        prepareLoad (m.update blockHash (block.setRefCnt (block.refCnt + 1))) blockHashes
      return (block.blockId :: spec, m)

def touchOne (m : ARCOffloadingManager F κ) (blockHash : κ) : ARCOffloadingManager F κ :=
  match m.t1.get? blockHash with
  | some block =>
    if block.isReady then
      { m with t1 := m.t1.erase blockHash, t2 := m.t2.set blockHash block }
    else { m with t1 := m.t1.moveToEnd blockHash }
  | none =>
    if m.t2.contains blockHash then { m with t2 := m.t2.moveToEnd blockHash }
    else if m.b1.contains blockHash then
      let delta := TargetArith.max (TargetArith.ofNat 1) (TargetArith.div m.b2.size m.b1.size)
      { m with
        targetT1Size :=
          TargetArith.min (TargetArith.add m.targetT1Size delta) (TargetArith.ofNat m.cacheCapacity)
        b1 := m.b1.moveToEnd blockHash }
    else if m.b2.contains blockHash then
      let delta := TargetArith.max (TargetArith.ofNat 1) (TargetArith.div m.b1.size m.b2.size)
      { m with
        targetT1Size :=
          TargetArith.max (TargetArith.sub m.targetT1Size delta) (TargetArith.ofNat 0)
        b2 := m.b2.moveToEnd blockHash }
    else m

def touch (m : ARCOffloadingManager F κ) (blockHashes : List κ) : ARCOffloadingManager F κ :=
  blockHashes.reverse.foldl touchOne m

def completeLoad : ARCOffloadingManager F κ → List κ → Result (ARCOffloadingManager F κ)
  | m, [] => .ok m
  | m, blockHash :: blockHashes =>
    match m.get? blockHash with
    | none => .error (.assertionError "Block not found")
    | some block => do
      Result.ensure (block.refCnt > 0) "Block ref_cnt is already 0"
      completeLoad (m.update blockHash (block.setRefCnt (block.refCnt - 1))) blockHashes

def candidateT1 (m : ARCOffloadingManager F κ) (blockHashes : List κ) : Option (κ × BlockStatus) :=
  if (m.t1.size : Int) ≥ TargetArith.trunc m.targetT1Size then
    m.t1.items.find? (evictable blockHashes)
  else none

def candidateT2 (m : ARCOffloadingManager F κ) (blockHashes : List κ) : Option (κ × BlockStatus) :=
  m.t2.items.find? (evictable blockHashes)

/-- The `while` loop of `prepare_store`; without a result it gives up. -/
def evictLoop (blockHashes : List κ) : Nat → ARCOffloadingManager F κ → List κ →
    Option (List κ) × ARCOffloadingManager F κ
  | 0, m, toEvict => (some toEvict, m)
  | numBlocksToEvict + 1, m, toEvict =>
    match m.candidateT1 blockHashes with
    | some (blockHash, block) =>
      evictLoop blockHashes numBlocksToEvict
        { m with
          t1 := m.t1.erase blockHash
          b1 := m.b1.set blockHash ()
          backend := m.backend.free block } (toEvict ++ [blockHash])
    | none =>
      match m.candidateT2 blockHashes with
      | some (blockHash, block) =>
        evictLoop blockHashes numBlocksToEvict
          { m with
            t2 := m.t2.erase blockHash
            b2 := m.b2.set blockHash ()
            backend := m.backend.free block } (toEvict ++ [blockHash])
      | none => (none, m)

def boundGhosts (m : ARCOffloadingManager F κ) : ARCOffloadingManager F κ :=
  { m with
    b1 := m.b1.popFirst (m.b1.size - m.cacheCapacity)
    b2 := m.b2.popFirst (m.b2.size - m.cacheCapacity) }

/-- The new blocks go to `T1`. -/
def insert (m : ARCOffloadingManager F κ) (e : κ × BlockStatus) : ARCOffloadingManager F κ :=
  { m with t1 := m.t1.set e.1 e.2, b1 := m.b1.erase e.1, b2 := m.b2.erase e.1 }

def prepareStore (m : ARCOffloadingManager F κ) (blockHashes : List κ) :
    Result (Option (PrepareStoreOutput κ) × ARCOffloadingManager F κ) :=
  let blockHashesToStore := blockHashes.filter fun h => ¬ m.t1.contains h ∧ ¬ m.t2.contains h
  if blockHashesToStore = [] then .ok (some ⟨[], CPUBackend.getLoadStoreSpec [], []⟩, m)
  else
    match m.evictLoop blockHashes (blockHashesToStore.length - m.backend.getNumFreeBlocks) [] with
    | (none, m) => .ok (none, m)
    | (some toEvict, m) => do
      let m := m.boundGhosts
      let events := appendEvent m.events m.backend toEvict true
      let (blocks, backend) ← m.backend.allocateBlocks blockHashesToStore.length
      Result.ensure (blocks.length = blockHashesToStore.length)
        "Backend did not allocate the expected number of blocks"
      return (some ⟨blockHashesToStore, CPUBackend.getLoadStoreSpec blocks, toEvict⟩,
        (blockHashesToStore.zip blocks).foldl insert { m with backend, events })

def storeSuccess : ARCOffloadingManager F κ → List κ → List κ × ARCOffloadingManager F κ
  | m, [] => ([], m)
  | m, blockHash :: blockHashes =>
    match m.get? blockHash with
    | none => storeSuccess m blockHashes
    | some block =>
      if block.isReady then storeSuccess m blockHashes
      else
        let (stored, m) := storeSuccess (m.update blockHash (block.setRefCnt 0)) blockHashes
        (blockHash :: stored, m)

/-- One round of `complete_store` after a failure: the block is popped, ready or not. -/
def dropOne (m : ARCOffloadingManager F κ) (blockHash : κ) : ARCOffloadingManager F κ :=
  match m.t1.get? blockHash with
  | some block =>
    { m with
      t1 := m.t1.erase blockHash
      backend := if block.isReady then m.backend else m.backend.free block }
  | none =>
    match m.t2.get? blockHash with
    | some block =>
      { m with
        t2 := m.t2.erase blockHash
        backend := if block.isReady then m.backend else m.backend.free block }
    | none => m

def completeStore (m : ARCOffloadingManager F κ) (blockHashes : List κ) (success : Bool) :
    ARCOffloadingManager F κ :=
  if success then
    let (stored, m) := m.storeSuccess blockHashes
    { m with events := appendEvent m.events m.backend stored false }
  else blockHashes.foldl dropOne m

end ARCOffloadingManager

end Vllm
