import Mathlib.Algebra.GroupWithZero.Nat
import Mathlib.Algebra.Ring.Int.Defs
import Vllm.Lib.Py
import Vllm.Lib.Dict
import Vllm.Lib.Result

namespace Vllm

inductive DType
  | float64
  | float32
  | float16
  | bfloat16
  | float8
  | int8
  | uint8
  deriving DecidableEq, Repr

/-- `get_dtype_size`. -/
def DType.size : DType → Nat
  | .float64 => 8
  | .float32 => 4
  | .float16 => 2
  | .bfloat16 => 2
  | .float8 => 1
  | .int8 => 1
  | .uint8 => 1

structure AttentionSpec where
  blockSize : Nat
  numKvHeads : Nat
  headSize : Nat
  dtype : DType
  pageSizePadded : Option Nat := none
  deriving DecidableEq, Repr

inductive MambaCacheMode
  | none
  | all
  | align
  deriving DecidableEq, Repr

structure MambaSpec where
  blockSize : Nat
  shapes : List (List Nat)
  dtypes : List DType
  pageSizePadded : Option Nat := none
  mambaType : String := "mamba2"
  mambaCacheMode : MambaCacheMode := .none
  numSpeculativeBlocks : Nat := 0
  deriving DecidableEq, Repr

/-- The subclasses of `KVCacheSpec` that describe one layer. `MLAAttentionSpec` is a subclass of
`FullAttentionSpec`. -/
inductive KVCacheSpec
  | fullAttention (a : AttentionSpec) (headSizeV : Nat)
      (slidingWindow attentionChunkSize : Option Nat)
  | mlaAttention (a : AttentionSpec) (cacheDtypeStr : Option String)
  | chunkedLocalAttention (a : AttentionSpec) (attentionChunkSize : Nat)
  | slidingWindow (a : AttentionSpec) (slidingWindow : Nat)
  | mamba (m : MambaSpec)
  | crossAttention (a : AttentionSpec)
  deriving DecidableEq, Repr

/-- What the memory estimates read of the engine's configuration. -/
structure VllmConfig where
  maxModelLen : Nat
  maxNumBatchedTokens : Nat
  decodeContextParallelSize : Nat := 1
  prefillContextParallelSize : Nat := 1
  mambaCacheMode : MambaCacheMode := .none
  maxNumEncoderInputTokens : Nat := 0
  deriving DecidableEq, Repr

def cdiv (a b : Nat) : Nat := (a + b - 1) / b

namespace KVCacheSpec

def blockSize : KVCacheSpec → Nat
  | .fullAttention a _ _ _ => a.blockSize
  | .mlaAttention a _ => a.blockSize
  | .chunkedLocalAttention a _ => a.blockSize
  | .slidingWindow a _ => a.blockSize
  | .mamba m => m.blockSize
  | .crossAttention a => a.blockSize

/-- `isinstance(spec, FullAttentionSpec)`. -/
def isFullAttention : KVCacheSpec → Bool
  | .fullAttention .. => true
  | .mlaAttention .. => true
  | _ => false

def isCrossAttention : KVCacheSpec → Bool
  | .crossAttention _ => true
  | _ => false

def realPageSizeBytes : KVCacheSpec → Nat
  | .fullAttention a headSizeV _ _ =>
    a.blockSize * a.numKvHeads * (a.headSize + headSizeV) * a.dtype.size
  | .mlaAttention a cacheDtypeStr =>
    if cacheDtypeStr = some "fp8_ds_mla" then a.blockSize * 656
    else a.blockSize * a.numKvHeads * a.headSize * a.dtype.size
  | .chunkedLocalAttention a _ => 2 * a.blockSize * a.numKvHeads * a.headSize * a.dtype.size
  | .slidingWindow a _ => 2 * a.blockSize * a.numKvHeads * a.headSize * a.dtype.size
  | .mamba m => ((m.shapes.zip m.dtypes).map fun p => p.1.prod * p.2.size).sum
  | .crossAttention a => 2 * a.blockSize * a.numKvHeads * a.headSize * a.dtype.size

def pageSizePadded : KVCacheSpec → Option Nat
  | .fullAttention a _ _ _ => a.pageSizePadded
  | .mlaAttention a _ => a.pageSizePadded
  | .chunkedLocalAttention a _ => a.pageSizePadded
  | .slidingWindow a _ => a.pageSizePadded
  | .mamba m => m.pageSizePadded
  | .crossAttention a => a.pageSizePadded

/-- The padded size, which the source asserts to be no smaller than the real one. -/
def pageSizeBytes (s : KVCacheSpec) : Nat := s.pageSizePadded.getD s.realPageSizeBytes

end KVCacheSpec

end Vllm
