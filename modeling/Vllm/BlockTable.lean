import Mathlib.Logic.Equiv.Basic
import Vllm.Lib.Result
import Vllm.Request

/-! The block tables of the model runner: for every KV cache group, rows of block ids on the CPU
with a copy on the GPU that is renewed only when the table is dirty. -/

universe u

namespace Vllm

/-- `row[start : start + len(vals)] = vals` on a numpy row of the given width. A slice cut off by
the width accepts no values, or a single one that is broadcast to nothing. -/
def assignSlice {α : Type u} (width : Nat) (row : Nat → α) (start : Nat) (vals : List α) :
    Result (Nat → α) :=
  if start + vals.length ≤ width then
    .ok fun j => if start ≤ j then (vals[j - start]?).getD (row j) else row j
  else if vals.length ≤ 1 then .ok row
  else .error (.valueError "could not broadcast input array")

structure BlockTable where
  blockSize : Nat
  blocksPerKvBlock : Nat
  useHybridBlocks : Bool
  maxNumBlocksPerReq : Nat
  cpKvCacheInterleaveSize : Nat
  pcpWorldSize : Nat
  pcpRank : Nat
  dcpWorldSize : Nat
  dcpRank : Nat
  cpu : Nat → Nat → Int
  gpu : Nat → Nat → Int
  numBlocksPerRow : Nat → Nat
  dirty : Bool

structure BlockTableConfig where
  blockSize : Nat
  kernelBlockSize : Nat
  maxNumBlocksPerReq : Nat
  cpKvCacheInterleaveSize : Nat := 1
  pcpWorldSize : Nat := 1
  pcpRank : Nat := 0
  dcpWorldSize : Nat := 1
  dcpRank : Nat := 0
  deriving DecidableEq, Repr

namespace BlockTable

def init (c : BlockTableConfig) : Result BlockTable := do
  let hybrid := decide (c.kernelBlockSize ≠ c.blockSize)
  if hybrid ∧ c.blockSize % c.kernelBlockSize ≠ 0 then
    throw (.valueError "kernel_block_size must divide kv_manager_block_size size evenly")
  let blocksPerKvBlock := if hybrid then c.blockSize / c.kernelBlockSize else 1
  return {
    blockSize := if hybrid then c.kernelBlockSize else c.blockSize
    blocksPerKvBlock
    useHybridBlocks := hybrid
    maxNumBlocksPerReq := c.maxNumBlocksPerReq * blocksPerKvBlock
    cpKvCacheInterleaveSize := c.cpKvCacheInterleaveSize
    pcpWorldSize := c.pcpWorldSize
    pcpRank := c.pcpRank
    dcpWorldSize := c.dcpWorldSize
    dcpRank := c.dcpRank
    cpu := fun _ _ => 0
    gpu := fun _ _ => 0
    numBlocksPerRow := fun _ => 0
    dirty := false }

def mapToKernelBlocks (kvManagerBlockIds : List Nat) (blocksPerKvBlock : Nat) : List Nat :=
  if blocksPerKvBlock = 1 then kvManagerBlockIds
  else kvManagerBlockIds.flatMap fun b =>
    (List.range blocksPerKvBlock).map fun k => b * blocksPerKvBlock + k

def kernelBlocks (t : BlockTable) (blockIds : List Nat) : List Nat :=
  if t.useHybridBlocks then mapToKernelBlocks blockIds t.blocksPerKvBlock else blockIds

def appendRow (t : BlockTable) (blockIds : List Nat) (rowIdx : Nat) : Result BlockTable :=
  if blockIds = [] then .ok t
  else do
    let ids := t.kernelBlocks blockIds
    let start := t.numBlocksPerRow rowIdx
    let row ← assignSlice t.maxNumBlocksPerReq (t.cpu rowIdx) start (ids.map Int.ofNat)
    return { t with
      numBlocksPerRow := Function.update t.numBlocksPerRow rowIdx (start + ids.length)
      cpu := Function.update t.cpu rowIdx row
      dirty := true }

def addRow (t : BlockTable) (blockIds : List Nat) (rowIdx : Nat) : Result BlockTable :=
  { t with numBlocksPerRow := Function.update t.numBlocksPerRow rowIdx 0, dirty := true }.appendRow
    blockIds rowIdx

def moveRow (t : BlockTable) (src tgt : Nat) : BlockTable :=
  let numBlocks := t.numBlocksPerRow src
  { t with
    cpu := Function.update t.cpu tgt fun j =>
      if j < numBlocks ∧ j < t.maxNumBlocksPerReq then t.cpu src j else t.cpu tgt j
    numBlocksPerRow := Function.update t.numBlocksPerRow tgt numBlocks
    dirty := true }

def swapRow (t : BlockTable) (src tgt : Nat) : BlockTable :=
  { t with
    numBlocksPerRow := t.numBlocksPerRow ∘ Equiv.swap src tgt
    cpu := t.cpu ∘ Equiv.swap src tgt
    dirty := true }

def copyToGpu (t : BlockTable) (n : Nat) : BlockTable :=
  { t with gpu := fun i => if i < n then t.cpu i else t.gpu i }

def commitBlockTable (t : BlockTable) (numReqs : Nat) : BlockTable :=
  if t.dirty then { t.copyToGpu numReqs with dirty := false } else t

def clear (t : BlockTable) : BlockTable :=
  { t with gpu := fun _ _ => 0, cpu := fun _ _ => 0, dirty := false }

/-- `get_device_tensor(padded)[num_reqs:padded].fill_(-1)` of the model runner. -/
def fillPadding (t : BlockTable) (numReqs padded : Nat) : BlockTable :=
  { t with gpu := fun i => if numReqs ≤ i ∧ i < padded then fun _ => -1 else t.gpu i }

end BlockTable

abbrev MultiGroupBlockTable := List BlockTable

namespace MultiGroupBlockTable

variable (ts : MultiGroupBlockTable)

def forTables (f : BlockTable → List Nat → Result BlockTable) (blockIds : List (List Nat)) :
    MultiGroupBlockTable → Result MultiGroupBlockTable
  | [] => .ok []
  | t :: ts =>
    match blockIds with
    | [] => .error .indexError
    | ids :: rest => do
      let t ← f t ids
      let ts ← forTables f rest ts
      return t :: ts

def appendRow (blockIds : List (List Nat)) (rowIdx : Nat) : Result MultiGroupBlockTable :=
  forTables (fun t ids => t.appendRow ids rowIdx) blockIds ts

def addRow (blockIds : List (List Nat)) (rowIdx : Nat) : Result MultiGroupBlockTable :=
  forTables (fun t ids => t.addRow ids rowIdx) blockIds ts

def moveRow (src tgt : Nat) : MultiGroupBlockTable := ts.map fun t => t.moveRow src tgt

def swapRow (src tgt : Nat) : MultiGroupBlockTable := ts.map fun t => t.swapRow src tgt

def commitBlockTable (numReqs : Nat) : MultiGroupBlockTable :=
  ts.map fun t => t.commitBlockTable numReqs

def clear : MultiGroupBlockTable := ts.map BlockTable.clear

def fillPadding (numReqs padded : Nat) : MultiGroupBlockTable :=
  ts.map fun t => t.fillPadding numReqs padded

end MultiGroupBlockTable

end Vllm
