import Vllm.CustomBlockAllocator

namespace Vllm

structure CacheManagerConfig (F H : Type) where
  allocator : AllocatorConfig F
  enablePrefixCache : Bool := true
  hash : List Int → H
  hash_injective : Function.Injective hash

structure CustomCacheManager (H : Type) where
  allocator : CustomBlockAllocator
  prefixCache : Dict H (List Nat)
  activeSequences : Dict Int Int

namespace CustomCacheManager

variable {F H : Type} [DecidableEq H]

def prefixHash (c : CacheManagerConfig F H) (tokenIds : List Int) : H :=
  let prefixLen := min tokenIds.length 256
  c.hash (tokenIds.take prefixLen)

def findPrefix (c : CacheManagerConfig F H) (tokenIds : List Int) (m : CustomCacheManager H) : Option (List Nat) :=
  if c.enablePrefixCache then m.prefixCache.get? (prefixHash c tokenIds) else none

def cachePrefix (c : CacheManagerConfig F H) (tokenIds : List Int) (blocks : List Nat) (m : CustomCacheManager H) :
    CustomCacheManager H :=
  if c.enablePrefixCache then { m with prefixCache := m.prefixCache.set (prefixHash c tokenIds) blocks } else m

def evictSequences (numBlocks : Int) : List Int → Int → CustomCacheManager H → Int × CustomCacheManager H
  | [], freed, m => (freed, m)
  | seqId :: seqIds, freed, m =>
    if freed ≥ numBlocks then (freed, m)
    else evictSequences numBlocks seqIds (freed + m.activeSequences.getD seqId 0)
      { m with
        allocator := m.allocator.free seqId
        activeSequences := m.activeSequences.erase seqId }

def evictLru (numBlocks : Int) (m : CustomCacheManager H) : Int × CustomCacheManager H :=
  evictSequences numBlocks (m.activeSequences.keys.insertionSort (· ≤ ·)) 0 m

def init (c : CacheManagerConfig F H) : CustomCacheManager H := ⟨.init c.allocator, Dict.empty, Dict.empty⟩

end CustomCacheManager

structure Cached where
  seqId : Int
  allocation : Nat
  tokens : List Int
  deriving DecidableEq, Repr

structure PrefixReuse (H : Type) where
  manager : CustomCacheManager H
  allocations : Nat
  last : Dict Int (Nat × List Int)
  /-- The tokens whose keys and values a block holds, with their positions. -/
  kv : Nat → List (Int × Nat)
  cached : Dict H Cached

namespace PrefixReuse

inductive Call
  | allocate (seqId numTokens : Int) (tokenIds : List Int)
  | free (seqId : Int)
  | cachePrefix (seqId : Int)
  | findPrefix (tokenIds : List Int)
  | evictLru (numBlocks : Int)
  deriving DecidableEq, Repr

variable {F H : Type} [RatioArith F] [DecidableEq H]

def init (c : CacheManagerConfig F H) : PrefixReuse H where
  manager := .init c
  allocations := 0
  last := Dict.empty
  kv _ := []
  cached := Dict.empty

def written (blockSz : Nat) (tokenIds : List Int) (blocks : List Nat) (kv : Nat → List (Int × Nat)) (b : Nat) :
    List (Int × Nat) :=
  if b ∈ blocks then (tokenIds.zipIdx.drop (blocks.idxOf b * blockSz)).take blockSz else kv b

def run (c : CacheManagerConfig F H) (s : PrefixReuse H) : Call → PrefixReuse H
  | .allocate seqId numTokens tokenIds =>
    match s.manager.allocator.allocate c.allocator seqId numTokens with
    | (.ok blocks, allocator) =>
      { s with
        manager := { s.manager with allocator }
        allocations := s.allocations + 1
        last := s.last.set seqId (s.allocations, tokenIds)
        kv := written (CustomBlockAllocator.blockSz c.allocator numTokens) tokenIds blocks s.kv }
    | (.error _, allocator) => { s with manager := { s.manager with allocator } }
  | .free seqId => { s with manager := { s.manager with allocator := s.manager.allocator.free seqId } }
  | .cachePrefix seqId =>
    match s.last.get? seqId, s.manager.allocator.allocated.get? seqId with
    | some (allocation, tokenIds), some entry =>
      { s with
        manager := s.manager.cachePrefix c tokenIds (entry.map Prod.fst)
        cached := s.cached.set (CustomCacheManager.prefixHash c tokenIds) ⟨seqId, allocation, tokenIds⟩ }
    | _, _ => s
  | .findPrefix _ => s
  | .evictLru numBlocks => { s with manager := (s.manager.evictLru numBlocks).2 }

def step (c : CacheManagerConfig F H) (s : PrefixReuse H) (call : Call) : Result (PrefixReuse H) := .ok (s.run c call)

def StillAllocated (s : PrefixReuse H) (e : Cached) : Prop :=
  (s.last.get? e.seqId).map Prod.fst = some e.allocation ∧ (s.manager.allocator.allocated.get? e.seqId).isSome = true

structure Reusable (s : PrefixReuse H) (tokenIds : List Int) (blocks : List Nat) (e : Cached) : Prop where
  allocated : ∀ b ∈ blocks, s.StillAllocated e ∧ ∃ owned, s.manager.allocator.Owns e.seqId owned ∧ b ∈ owned
  covers : e.tokens <+: tokenIds
  kv : ∀ b ∈ blocks, ∀ token position, (token, position) ∈ s.kv b → tokenIds[position]? = some token

def Behaves (c : CacheManagerConfig F H) (s : PrefixReuse H) : Call → Prop
  | .findPrefix tokenIds => ∀ blocks, s.manager.findPrefix c tokenIds = some blocks →
      ∃ e, s.cached.get? (CustomCacheManager.prefixHash c tokenIds) = some e ∧ s.Reusable tokenIds blocks e
  | .evictLru numBlocks =>
    ((s.manager.evictLru numBlocks).2.allocator.freeBlocks.length : Int) =
      s.manager.allocator.freeBlocks.length + (s.manager.evictLru numBlocks).1
  | _ => True

def Sound (c : CacheManagerConfig F H) (calls : List Call) : Prop := Guarded (step c) (Behaves c) (init c) calls

/-- Prefixes are only asked for while the sequence they were cached for keeps its blocks, and with the tokens cached
behind the hashed ones. -/
def Fresh (c : CacheManagerConfig F H) (s : PrefixReuse H) : Call → Prop
  | .findPrefix tokenIds => ∀ blocks e, s.manager.findPrefix c tokenIds = some blocks →
      s.cached.get? (CustomCacheManager.prefixHash c tokenIds) = some e →
      (blocks = [] ∨ s.StillAllocated e) ∧ (e.tokens.length ≤ 256 ∨ e.tokens.drop 256 <+: tokenIds.drop 256)
  | _ => True

/-- No allocation of less than no blocks finds a run of free blocks, which would put blocks on the free list twice. -/
def Undoubled (c : CacheManagerConfig F H) (s : PrefixReuse H) : Call → Prop
  | .allocate _ numTokens _ =>
    let n := CustomBlockAllocator.numBlocks c.allocator numTokens
    0 ≤ n ∨ ¬ Ascending.HasRun s.manager.allocator.freeBlocks (1 - n).toNat
  | _ => True

end PrefixReuse

end Vllm
