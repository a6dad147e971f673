import Mathlib.Algebra.Ring.Basic
import Vllm.Lib.Result
import Vllm.Lib.Stores
import Vllm.Lib.WaveSums

/-! The kernels of `gfx936_quant_gemv.hip` in exact arithmetic. A phase of a block between two
barriers is run thread by thread; global and shared memory end where they were allocated. -/

namespace Vllm.Gfx936

open Stores WaveSums

def blockThreads : Nat := 256
def waveSize : Nat := 64
def wavesPerBlock : Nat := blockThreads / waveSize
def rowsPerBlock : Nat := 4

def decodeInt4 (byte : UInt8) (high : Bool) : Int :=
  let value : Int := if high then (byte >>> 4).toNat else (byte &&& 0x0f).toNat
  if value ≥ 8 then value - 16 else value

def ceilDiv (stop size : Nat) : Nat := (stop + size - 1) / size

section Shared

variable {R : Type}

def loadInput (K : Nat) (input : List R) (smem : List R) (tid : Nat) : Result (List R) :=
  (strided tid K blockThreads).foldlM (fun smem k => do store smem k (← Result.getItem input k)) smem

def scaleOfRow [One R] (m groups : Nat) (scale : List R) (row group : Nat) : Result R :=
  if row < m then Result.getItem scale (row * groups + group) else .ok 1

/-- `scale_smem` starts at cell `K`, behind `input_smem`. -/
def loadScale [One R] (K m : Nat) (scale : List R) (blockIdx : Nat) (smem : List R) (tid : Nat) :
    Result (List R) :=
  let groups := K / 32
  (strided tid (rowsPerBlock * groups) blockThreads).foldlM (fun smem index => do
    let value ← scaleOfRow m groups scale (blockIdx * rowsPerBlock + index / groups) (index % groups)
    store smem (K + index) value) smem

def loadShared [One R] (K m : Nat) (scale input : List R) (blockIdx : Nat) (smem : List R) (tid : Nat) :
    Result (List R) := do
  loadScale K m scale blockIdx (← loadInput K input smem tid) tid

def w4Entry (K : Nat) (weight : List UInt8) (smem : List R) (row rowOffset k : Nat) : Result (Int × R) := do
  let byte ← Result.getItem weight (row * (K / 2) + k / 2)
  let groupScale ← Result.getItem smem (K + (rowOffset * (K / 32) + k / 32))
  return (decodeInt4 byte (k % 2 = 1), groupScale)

def sharedBytes (K : Nat) : Nat := K * 2 + rowsPerBlock * (K / 32) * 2

end Shared

section Blocks

variable {R : Type} [CommRing R]

def storeWaveSums (accumulators : Nat → Nat → R) (waveSums : List R) (tid : Nat) : Result (List R) :=
  if tid % waveSize = 0 then
    (List.range rowsPerBlock).foldlM (fun waveSums rowOffset =>
      store waveSums (rowOffset * wavesPerBlock + tid / waveSize)
        (reduce waveSize (accumulators rowOffset) (offsets 6) tid)) waveSums
  else .ok waveSums

/-- What thread `tid` of the block writes to the output, as pairs of a row and a value. -/
def writeOutput (m blockIdx : Nat) (waveSums : List R) (finish : Nat → R → Result R) (tid : Nat) :
    Result (List (Nat × R)) :=
  if tid / waveSize = 0 ∧ tid % waveSize < rowsPerBlock then
    let row := blockIdx * rowsPerBlock + tid % waveSize
    if row < m then do
      let total ← (List.range wavesPerBlock).foldlM (fun total index => do
        return total + (← Result.getItem waveSums (tid % waveSize * wavesPerBlock + index))) 0
      return [(row, ← finish row total)]
    else .ok []
  else .ok []

def sumRows (K m : Nat) (product : Nat → Nat → Nat → Result R) (finish : Nat → R → Result R)
    (waveSums : List R) (blockIdx : Nat) : Result (List (Nat × R)) := do
  let accumulators ← (List.range rowsPerBlock).mapM fun rowOffset =>
    (List.range blockThreads).mapM fun tid =>
      let row := blockIdx * rowsPerBlock + rowOffset
      if row < m then
        (strided tid K blockThreads).foldlM (fun sum k => do return sum + (← product row rowOffset k)) 0
      else .ok 0
  let waveSums ← (List.range blockThreads).foldlM
    (storeWaveSums fun rowOffset tid => (accumulators.getD rowOffset []).getD tid 0) waveSums
  let written ← (List.range blockThreads).mapM (writeOutput m blockIdx waveSums finish)
  return written.flatten

def w8a16GemvKernel (K m : Nat) (weight : List Int8) (scale input : List R) (smem waveSums : List R)
    (blockIdx : Nat) : Result (List (Nat × R)) := do
  let smem ← (List.range blockThreads).foldlM (loadInput K input) smem
  sumRows K m (fun row _ k => do
      return ((← Result.getItem weight (row * K + k)).toInt : R) * (← Result.getItem smem k))
    (fun row total => do return total * (← Result.getItem scale row)) waveSums blockIdx

def w4a16GemvKernel (K m : Nat) (weight : List UInt8) (scale input : List R) (smem waveSums : List R)
    (blockIdx : Nat) : Result (List (Nat × R)) := do
  let smem ← (List.range blockThreads).foldlM (loadShared K m scale input blockIdx) smem
  sumRows K m (fun row rowOffset k => do
      let (quant, groupScale) ← w4Entry K weight smem row rowOffset k
      return (quant : R) * groupScale * (← Result.getItem smem k))
    (fun _ total => .ok total) waveSums blockIdx

def launch (grid : Nat) (kernel : Nat → Result (List (Nat × R))) : Result (List (Nat × R)) := do
  return (← (List.range grid).mapM kernel).flatten

def launchW8 (K m : Nat) (weight : List Int8) (scale input : List R) (smem waveSums : Nat → List R) :
    Result (List (Nat × R)) :=
  launch (ceilDiv m rowsPerBlock) fun blockIdx =>
    w8a16GemvKernel K m weight scale input (smem blockIdx) (waveSums blockIdx) blockIdx

def launchW4 (K m : Nat) (weight : List UInt8) (scale input : List R) (smem waveSums : Nat → List R) :
    Result (List (Nat × R)) :=
  launch (ceilDiv m rowsPerBlock) fun blockIdx =>
    w4a16GemvKernel K m weight scale input (smem blockIdx) (waveSums blockIdx) blockIdx

end Blocks

section Dequant

variable {S O : Type}

/-- Thread `threadIdx` of block `blockIdx` of `w4_dequant_kernel`; `mul` is the product of the number
and the scale in the output type. -/
def w4DequantKernel (mul : Int → S → O) (weight : List UInt8) (scale : List S) (total k : Nat)
    (output : List O) (blockIdx threadIdx : Nat) : Result (List O) :=
  let index := blockIdx * blockThreads + threadIdx
  if index < total then do
    let row := index / k
    let column := index % k
    let groups := k / 32
    let byte ← Result.getItem weight (row * (k / 2) + column / 2)
    let groupScale ← Result.getItem scale (row * groups + column / 32)
    store output index (mul (decodeInt4 byte (column % 2 = 1)) groupScale)
  else .ok output

def w4Dequant (mul : Int → S → O) (weight : List UInt8) (scale : List S) (output : List O) (m k : Nat) :
    Result (Int × List O) :=
  if m = 0 ∨ k = 0 ∨ k % 32 ≠ 0 then .ok (-1, output)
  else do
    let total := m * k
    let output ← (List.range (ceilDiv total blockThreads)).foldlM (fun output blockIdx =>
      (List.range blockThreads).foldlM (fun output threadIdx =>
        w4DequantKernel mul weight scale total k output blockIdx threadIdx) output) output
    return (0, output)

end Dequant

end Vllm.Gfx936
