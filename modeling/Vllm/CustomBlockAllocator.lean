import Mathlib.Data.Rat.Floor
import Mathlib.Data.List.Sort
import Vllm.Lib.Ascending
import Vllm.Lib.Dict
import Vllm.Lib.Numpy
import Vllm.Lib.Run

/-! The paged block allocator with tiers of block sizes: a sorted search for consecutive blocks, with whatever is free as
the fallback. -/

namespace Vllm

class RatioArith (F : Type) where
  trueDiv : Nat → Nat → F
  gt : F → F → Bool

instance : RatioArith ℚ where
  trueDiv m n := (m : ℚ) / n
  gt x y := x > y

inductive Tier
  | small
  | medium
  | large
  deriving DecidableEq, Repr

def Tier.size : Tier → Nat
  | .small => 16
  | .medium => 64
  | .large => 256

structure AllocatorConfig (F : Type) where
  numGpuBlocks : Nat
  blockSize : Nat := 16
  enableDefrag : Bool := true
  defragThreshold : F
  enableTiered : Bool := true
  numGpuBlocks_pos : 0 < numGpuBlocks
  blockSize_pos : 0 < blockSize

structure CustomBlockAllocator where
  freeBlocks : List Nat
  allocated : Dict Int (List (Nat × Tier))

namespace CustomBlockAllocator

def selectTier (numTokens : Int) : Tier :=
  if numTokens ≤ 1024 then .small
  else if numTokens ≤ 8192 then .medium
  else .large

/-- The loop over the sorted free list for the first of `n` consecutive blocks. -/
def findContiguous (freeBlocks : List Nat) (n : Int) : List Int → Result (Option Int)
  | [] => .ok none
  | i :: is => do
    let last ← Numpy.item freeBlocks (i + n - 1)
    let first ← Numpy.item freeBlocks i
    if (last : Int) - first = n - 1 then return some i else findContiguous freeBlocks n is

def allocContiguous (n : Int) (s : CustomBlockAllocator) : Result (List Nat) × CustomBlockAllocator :=
  let freeBlocks := s.freeBlocks.insertionSort (· ≤ ·)
  match findContiguous freeBlocks n (Py.range 0 (freeBlocks.length - n + 1) 1) with
  | .error e => (.error e, { s with freeBlocks })
  | .ok (some i) =>
    (.ok (Py.slice freeBlocks i (i + n)),
      { s with freeBlocks := Py.sliceTo freeBlocks i ++ Py.sliceFrom freeBlocks (i + n) })
  | .ok none =>
    (.ok (Py.sliceTo freeBlocks n), { s with freeBlocks := Py.sliceFrom freeBlocks n })

def owned (s : CustomBlockAllocator) : List Nat := s.allocated.values.flatMap (List.map Prod.fst)

variable {F : Type} [RatioArith F]

def defragment (c : AllocatorConfig F) (s : CustomBlockAllocator) : Int × CustomBlockAllocator :=
  let inUse := s.owned.insertionSort (· ≤ ·)
  let reclaimed := s.freeBlocks.length
  let freeBlocks := (List.range c.numGpuBlocks).filter (· ∉ inUse)
  (reclaimed - freeBlocks.length, { s with freeBlocks })

def withTier : Option Tier → Nat → Result (Nat × Tier)
  | some tier, b => .ok (b, tier)
  | none, _ => .error (.nameError "tier")

def tierOf (c : AllocatorConfig F) (numTokens : Int) : Option Tier :=
  if c.enableTiered then some (selectTier numTokens) else none

def blockSz (c : AllocatorConfig F) (numTokens : Int) : Nat := ((tierOf c numTokens).map Tier.size).getD c.blockSize

def numBlocks (c : AllocatorConfig F) (numTokens : Int) : Int :=
  (numTokens + blockSz c numTokens - 1).fdiv (blockSz c numTokens)

def defragDue (c : AllocatorConfig F) (free : Nat) : Bool :=
  c.enableDefrag && RatioArith.gt (RatioArith.trueDiv free c.numGpuBlocks) c.defragThreshold

def allocate (c : AllocatorConfig F) (seqId numTokens : Int) (s : CustomBlockAllocator) :
    Result (List Nat) × CustomBlockAllocator :=
  match s.allocContiguous (numBlocks c numTokens) with
  | (.error e, s) => (.error e, s)
  | (.ok blocks, s) =>
    match blocks.mapM (withTier (tierOf c numTokens)) with
    | .error e => (.error e, s)
    | .ok entry =>
      let s := { s with allocated := s.allocated.set seqId entry }
      (.ok blocks, if defragDue c s.freeBlocks.length then (s.defragment c).2 else s)

def free (seqId : Int) (s : CustomBlockAllocator) : CustomBlockAllocator :=
  match s.allocated.get? seqId with
  | some blocks =>
    { freeBlocks := s.freeBlocks ++ blocks.map Prod.fst, allocated := s.allocated.erase seqId }
  | none => s

def init (c : AllocatorConfig F) : CustomBlockAllocator := ⟨List.range c.numGpuBlocks, Dict.empty⟩

inductive Call
  | allocate (seqId numTokens : Int)
  | free (seqId : Int)
  | defragment
  deriving DecidableEq, Repr

def run (c : AllocatorConfig F) (s : CustomBlockAllocator) : Call → CustomBlockAllocator
  | .allocate seqId numTokens => (s.allocate c seqId numTokens).2
  | .free seqId => s.free seqId
  | .defragment => (s.defragment c).2

def step (c : AllocatorConfig F) (s : CustomBlockAllocator) (call : Call) : Result CustomBlockAllocator :=
  .ok (s.run c call)

def Conserves (c : AllocatorConfig F) (s : CustomBlockAllocator) : Prop :=
  (s.freeBlocks ++ s.owned).Perm (List.range c.numGpuBlocks)

instance (c : AllocatorConfig F) : DecidablePred (Conserves c) := fun s =>
  inferInstanceAs (Decidable ((s.freeBlocks ++ s.owned).Perm _))

def Owns (s : CustomBlockAllocator) (seqId : Int) (blocks : List Nat) : Prop :=
  (s.allocated.get? seqId).map (List.map Prod.fst) = some blocks

def AllocatesOrFails (c : AllocatorConfig F) (s : CustomBlockAllocator) (seqId numTokens : Int) :
    Result (List Nat) × CustomBlockAllocator → Prop
  | (.ok blocks, s') => blocks.length = Py.cdiv numTokens (blockSz c numTokens) ∧ s'.Owns seqId blocks
  | (.error _, s') => s' = s

def Behaves (c : AllocatorConfig F) (s : CustomBlockAllocator) : Call → Prop
  | .allocate seqId numTokens => s.AllocatesOrFails c seqId numTokens (s.allocate c seqId numTokens)
  | .free _ => True
  | .defragment => (s.defragment c).2.allocated = s.allocated

def Sound (c : AllocatorConfig F) (calls : List Call) : Prop :=
  Throughout (step c) (Conserves c) (init c) calls ∧ Guarded (step c) (Behaves c) (init c) calls

/-- Overwriting the entry of the sequence loses no blocks: it owns none, or the free list is rebuilt after `free` blocks
were left over. -/
def Keeps (c : AllocatorConfig F) (s : CustomBlockAllocator) (seqId : Int) (free : Nat) : Prop :=
  ((s.allocated.get? seqId).getD [] = []) ∨ defragDue c free = true

/-- The calls that go well: enough blocks and tiers for an allocation of some, and no search that finds a run of blocks,
or sorts a list out of order, for an allocation of none. -/
def Meets (c : AllocatorConfig F) (s : CustomBlockAllocator) : Call → Prop
  | .allocate seqId numTokens =>
    let n := numBlocks c numTokens
    if 0 < n then
      c.enableTiered = true ∧ n ≤ s.freeBlocks.length ∧ s.Keeps c seqId (s.freeBlocks.length - n.toNat)
    else if Ascending.HasRun s.freeBlocks (1 - n).toNat then
      n = 0 ∧ s.Keeps c seqId s.freeBlocks.length
    else s.freeBlocks.Pairwise (· ≤ ·)
  | .free _ => True
  | .defragment => True

end CustomBlockAllocator

end Vllm
