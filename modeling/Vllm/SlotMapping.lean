import Vllm.BlockTable

/-! Where the keys and values of a token go: the slot of every position on one rank of a context
parallel group, computed by the numpy code and by the Triton kernel, and the number of positions a
rank keeps. -/

namespace Vllm

namespace BlockTable

variable (t : BlockTable)

def totalCpWorldSize : Nat := t.pcpWorldSize * t.dcpWorldSize

def totalCpRank : Nat := t.pcpRank * t.dcpWorldSize + t.dcpRank

def ravel (i : Nat) : Int := t.cpu (i / t.maxNumBlocksPerReq) (i % t.maxNumBlocksPerReq)

/-- One element of the arrays in `compute_slot_mapping`. -/
def slot (reqIndex position : Nat) : Int :=
  if 1 < t.totalCpWorldSize then
    let virtualBlockSize := t.blockSize * t.totalCpWorldSize
    let blockTableIndex := reqIndex * t.maxNumBlocksPerReq + position / virtualBlockSize
    let blockNumber := t.ravel blockTableIndex
    let virtualBlockOffset := position % virtualBlockSize
    let blockOffset :=
      virtualBlockOffset / (t.totalCpWorldSize * t.cpKvCacheInterleaveSize) *
        t.cpKvCacheInterleaveSize + virtualBlockOffset % t.cpKvCacheInterleaveSize
    if virtualBlockOffset / t.cpKvCacheInterleaveSize % t.totalCpWorldSize = t.totalCpRank then
      blockNumber * t.blockSize + blockOffset
    else -1
  else
    let blockTableIndex := reqIndex * t.maxNumBlocksPerReq + position / t.blockSize
    t.ravel blockTableIndex * t.blockSize + (position % t.blockSize : Nat)

def computeSlotMapping (reqIndices positions : List Nat) : List Int :=
  List.zipWith t.slot reqIndices positions

end BlockTable

/-- `get_dcp_local_seq_lens`: a row for every request, with one element for the given rank or one
for each rank. -/
def getDcpLocalSeqLens (seqLens : List Nat) (dcpSize : Nat) (dcpRank : Option Nat)
    (cpKvCacheInterleaveSize : Nat) : List (List Int) :=
  let rankOffsets : List Nat := match dcpRank with
    | none => List.range dcpSize
    | some rank => [rank]
  seqLens.map fun (seqLen : Nat) => rankOffsets.map fun (rank : Nat) =>
    let base : Int := seqLen / cpKvCacheInterleaveSize / dcpSize * cpKvCacheInterleaveSize
    let remainder : Int := seqLen - base * dcpSize
    base + min (max (remainder - rank * cpKvCacheInterleaveSize) 0) cpKvCacheInterleaveSize

/-- The arguments of `_compute_slot_mappings_kernel` that belong to one KV cache group. Tensors are
functions of the offset from their pointer. -/
structure SlotMappingsKernel where
  maxNumTokens : Nat
  numReqs : Nat
  idxMapping : Nat → Nat
  queryStartLoc : Nat → Nat
  pos : Nat → Nat
  blockTable : Nat → Int
  blockTableStride : Nat
  blockSize : Nat
  cpRank : Nat
  cpSize : Nat
  cpInterleave : Nat

namespace SlotMappingsKernel

def padId : Int := -1

def tritonBlockSize : Nat := 1024

def forRange (start stop step : Nat) (body : Nat → (Nat → Int) → Nat → Int) (mem : Nat → Int) :
    Nat → Int :=
  (List.range ((stop - start + step - 1) / step)).foldl
    (fun mem n => body (start + n * step) mem) mem

def store (i stop : Nat) (values : Nat → Int) (mem : Nat → Int) : Nat → Int :=
  fun offset =>
    if i ≤ offset ∧ offset < i + tritonBlockSize ∧ offset < stop then values offset else mem offset

variable (k : SlotMappingsKernel)

def slotId (reqStateIdx position : Nat) : Int :=
  let blockIndex := position / (k.blockSize * k.cpSize)
  let blockOffset := position % (k.blockSize * k.cpSize)
  let blockNumber := k.blockTable (reqStateIdx * k.blockTableStride + blockIndex)
  if k.cpSize = 1 then blockNumber * k.blockSize + blockOffset
  else
    let rounds := blockOffset / (k.cpInterleave * k.cpSize)
    let remainder := blockOffset % k.cpInterleave
    let localOffset := rounds * k.cpInterleave + remainder
    if blockOffset / k.cpInterleave % k.cpSize = k.cpRank then
      blockNumber * k.blockSize + localOffset
    else padId

def program (batchIdx : Nat) (mem : Nat → Int) : Nat → Int :=
  if batchIdx = k.numReqs then
    forRange (k.queryStartLoc batchIdx) k.maxNumTokens tritonBlockSize
      (fun i => store i k.maxNumTokens fun _ => padId) mem
  else
    let stop := k.queryStartLoc (batchIdx + 1)
    forRange (k.queryStartLoc batchIdx) stop tritonBlockSize
      (fun i => store i stop fun offset =>
        k.slotId (k.idxMapping batchIdx) (if offset < stop then k.pos offset else 0)) mem

def launch (order : List Nat) (mem : Nat → Int) : Nat → Int :=
  order.foldl (fun mem batchIdx => k.program batchIdx mem) mem

end SlotMappingsKernel

end Vllm
