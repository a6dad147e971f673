import Vllm.KVCacheInterface

namespace Vllm

def checkedCdiv (a b : Nat) : Result Nat := if b = 0 then .error .zeroDivisionError else .ok (cdiv a b)

/-- `page_size_bytes`, with its assertion. -/
def KVCacheSpec.checkedPageSize (s : KVCacheSpec) : Result Nat := do
  Result.ensure (∀ padded ∈ s.pageSizePadded, s.realPageSizeBytes ≤ padded) ""
  return s.pageSizeBytes

/-- `max_memory_usage_bytes`, with what it may raise. -/
def KVCacheSpec.checkedMemoryUsage (c : VllmConfig) (s : KVCacheSpec) : Result Nat :=
  match s with
  | .fullAttention .. | .mlaAttention .. => do
    let world := c.decodeContextParallelSize * c.prefillContextParallelSize
    let maxModelLen := if world > 1 then cdiv c.maxModelLen world else c.maxModelLen
    return (← checkedCdiv maxModelLen s.blockSize) * (← s.checkedPageSize)
  | .chunkedLocalAttention _ attentionChunkSize => do
    let numTokens := min (attentionChunkSize + c.maxNumBatchedTokens) c.maxModelLen
    return (← checkedCdiv numTokens s.blockSize) * (← s.checkedPageSize)
  | .slidingWindow _ window => do
    Result.ensure (c.decodeContextParallelSize = 1) "DCP not support sliding window."
    let numTokens := min (window + c.maxNumBatchedTokens - 1) c.maxModelLen
    return ((← checkedCdiv numTokens s.blockSize) + 1) * (← s.checkedPageSize)
  | .mamba m => do
    match c.mambaCacheMode with
    | .all => return (← checkedCdiv c.maxModelLen s.blockSize) * (← s.checkedPageSize)
    | .align => return (← s.checkedPageSize) * (2 + m.numSpeculativeBlocks)
    | .none => return (← s.checkedPageSize) * (1 + m.numSpeculativeBlocks)
  | .crossAttention _ => do
    return (← checkedCdiv c.maxNumEncoderInputTokens s.blockSize) * (← s.checkedPageSize)

/-- The spec of a group: of each of its layers, or a `UniformTypeKVCacheSpecs`. -/
inductive GroupSpec
  | layer (spec : KVCacheSpec)
  | uniformType (kvCacheSpecs : List (String × KVCacheSpec))
  deriving DecidableEq, Repr

structure KVCacheGroupSpec where
  layerNames : List String
  kvCacheSpec : GroupSpec
  deriving DecidableEq, Repr

namespace GroupSpec

def pageSizeBytes : GroupSpec → Result Nat
  | .layer spec => spec.checkedPageSize
  | .uniformType specs => specs.foldlM (fun total layer => do return total + (← layer.2.checkedPageSize)) 0

def maxMemoryUsageBytes (c : VllmConfig) : GroupSpec → Result Nat
  | .layer spec => spec.checkedMemoryUsage c
  | .uniformType [] => .error (.valueError "max() iterable argument is empty")
  | .uniformType (first :: specs) => do
    let maxNumPages ← (first :: specs).foldlM (fun pages layer => do
      return max pages (← checkedCdiv (← layer.2.checkedMemoryUsage c) (← layer.2.checkedPageSize))) 0
    return maxNumPages * (← (GroupSpec.uniformType (first :: specs)).pageSizeBytes)

end GroupSpec

def getUniformPageSize (specs : List GroupSpec) : Result Nat := do
  let pageSizes ← specs.mapM GroupSpec.pageSizeBytes
  Result.ensure (pageSizes.dedup.length = 1) ""
  Result.getItem pageSizes 0

def pooledMemoryUsage (c : VllmConfig) (first : KVCacheGroupSpec) (groups : List KVCacheGroupSpec) : Result Nat := do
  let groupSize := ((first :: groups).map fun group => group.layerNames.length).max?.getD 0
  let pageSize ← getUniformPageSize ((first :: groups).map KVCacheGroupSpec.kvCacheSpec)
  let blocksNeeded ← checkedCdiv (← first.kvCacheSpec.maxMemoryUsageBytes c) pageSize
  return groupSize * pageSize * blocksNeeded

def maxMemoryUsageBytesFromGroups (c : VllmConfig) : List KVCacheGroupSpec → Result Nat
  | [] => .ok 0
  | [⟨_, .uniformType specs⟩] =>
    specs.foldlM (fun total layer => do return total + (← layer.2.checkedMemoryUsage c)) 0
  | first :: groups => pooledMemoryUsage c first groups

def fits (groups : List KVCacheGroupSpec) (availableMemory : Int) (modelLen : Int) (c : VllmConfig) :
    Result Bool × VllmConfig :=
  let c := { c with maxModelLen := modelLen.toNat }
  ((fun usage : Nat => decide ((usage : Int) ≤ availableMemory)) <$> maxMemoryUsageBytesFromGroups c groups, c)

def searchModelLen (groups : List KVCacheGroupSpec) (availableMemory : Int) (left right result : Int)
    (c : VllmConfig) : Result Int × VllmConfig :=
  if left ≤ right then
    let mid := (left + right) / 2
    match fits groups availableMemory mid c with
    | (.error e, c) => (.error e, c)
    | (.ok true, c) => searchModelLen groups availableMemory (mid + 1) right mid c
    | (.ok false, c) => searchModelLen groups availableMemory left (mid - 1) result c
  else (.ok result, c)
termination_by (right + 1 - left).toNat
decreasing_by all_goals omega

/-- The `finally` clause restores the length also after an exception. -/
def estimateMaxModelLenFromGroups (c : VllmConfig) (groups : List KVCacheGroupSpec) (availableMemory : Int) :
    Result Int × VllmConfig :=
  let originalMax := c.maxModelLen
  let searched : Result Int × VllmConfig := match fits groups availableMemory 1 c with
    | (.error e, c) => (.error e, c)
    | (.ok false, c) => (.ok 0, c)
    | (.ok true, c) => searchModelLen groups availableMemory 1 originalMax 1 c
  (searched.1, { searched.2 with maxModelLen := originalMax })

def fitWorkers (autoFitMax : Int) (c : VllmConfig) : List (List KVCacheGroupSpec × Int) → Result Int × VllmConfig
  | [] => (.ok autoFitMax, c)
  | (groups, availableMemory) :: workers =>
    if groups = [] then fitWorkers autoFitMax c workers
    else match estimateMaxModelLenFromGroups c groups availableMemory with
      | (.error e, c) => (.error e, c)
      | (.ok workerMax, c) => fitWorkers (if workerMax < autoFitMax then workerMax else autoFitMax) c workers

def autoFitMaxModelLen (c : VllmConfig) (workers : List (List KVCacheGroupSpec × Int)) : Result VllmConfig :=
  let originalMax := c.maxModelLen
  if workers.all fun worker => worker.1 = [] then .ok c
  else match fitWorkers originalMax c workers with
    | (.error e, _) => .error e
    | (.ok autoFitMax, c) =>
      if autoFitMax ≤ 0 then .error (.valueError ("Cannot auto-fit max_model_len: not enough GPU memory available " ++
        "to serve even a single token. Try increasing `gpu_memory_utilization`."))
      else if autoFitMax ≥ originalMax then .ok c
      else .ok { c with maxModelLen := autoFitMax.toNat }

end Vllm
