import Vllm.HashIsolation
import Vllm.KVInvariant
import Vllm.Lib.Run

namespace Vllm

open BlockPool

/-- The operations of the KV cache manager. An allocation may follow a lookup for the same request;
the lookup's result is passed on as it is. -/
inductive KVOp
  | getComputedBlocks (request : Request)
  | allocateSlots (request : Request) (numNewTokens : Nat) (lookup : Bool)
      (numExternalComputedTokens numLookaheadTokens numEncoderTokens : Nat)
      (delayCacheBlocks : Bool)
  | cacheBlocks (request : Request) (numComputedTokens : Nat)
  | removeSkippedBlocks (requestId : ReqId) (totalComputedTokens : Nat)
  | evictBlocks (blockIds : List BlockId)
  | free (requestId : ReqId)
  | resetPrefixCache
  | getNumCommonPrefixBlocks (runningRequestId : ReqId)
  | takeNewBlockIds
  | newStepStarts

namespace KVOp

def slotArgs (k : KVCacheManagerConfig) (s : KVCacheManager) (request : Request) (lookup : Bool)
    (numExternalComputedTokens numLookaheadTokens numEncoderTokens : Nat)
    (delayCacheBlocks : Bool) : Result KVCacheManager.SlotArgs :=
  let args : KVCacheManager.SlotArgs :=
    { numLookaheadTokens, numExternalComputedTokens, delayCacheBlocks, numEncoderTokens }
  if lookup then do
    let (newComputedBlocks, numNewComputedTokens) ← s.getComputedBlocks k request
    return { args with newComputedBlocks, numNewComputedTokens }
  else .ok args

def step (k : KVCacheManagerConfig) (s : KVCacheManager) : KVOp → Result KVCacheManager
  | .getComputedBlocks request => do
    let _ ← s.getComputedBlocks k request
    return s
  | .allocateSlots request numNewTokens lookup external lookahead encoder delay => do
    let args ← slotArgs k s request lookup external lookahead encoder delay
    let (_, s) ← s.allocateSlots k request numNewTokens args
    return s
  | .cacheBlocks request numComputedTokens => s.cacheBlocks k request numComputedTokens
  | .removeSkippedBlocks requestId totalComputedTokens =>
    s.removeSkippedBlocks requestId totalComputedTokens
  | .evictBlocks blockIds => s.evictBlocks k blockIds
  | .free requestId => .ok (s.free requestId)
  | .resetPrefixCache => .ok (s.resetPrefixCache k).2
  | .getNumCommonPrefixBlocks requestId => .ok (s.getNumCommonPrefixBlocks k requestId).2
  | .takeNewBlockIds => .ok s.takeNewBlockIds.2
  | .newStepStarts => .ok s.newStepStarts

/-- A request is not empty and carries the hashes its own hasher computed. -/
def Proper (h : BlockHasher) : KVOp → Prop
  | .allocateSlots request _ _ _ _ _ _ =>
    request.Linked h ∧ 0 < request.numTokens ∧ 0 ≤ request.numComputedTokens
  | _ => True

/-- Where blocks for external tokens follow the hits of an allocation that succeeds, no group has more
hits than the computed tokens fill. -/
def HitsFit (k : KVCacheManagerConfig) (s : KVCacheManager) : KVOp → Prop
  | .allocateSlots request numNewTokens lookup external lookahead encoder delay =>
    ∀ args, slotArgs k s request lookup external lookahead encoder delay = .ok args →
      ∀ newBlocks s', s.allocateSlots k request numNewTokens args = .ok (some newBlocks, s') →
        s.HitsFit request args
  | _ => True

instance (s : KVCacheManager) (request : Request) (args : KVCacheManager.SlotArgs) :
    Decidable (s.HitsFit request args) :=
  decidable_of_iff (∀ p ∈ s.singleTypeManagers.zipIdx, 0 < args.numExternalComputedTokens →
      ((args.newComputedBlocks.getD p.2 []).length : Int) ≤ Py.cdiv (request.numComputedTokens +
        args.numNewComputedTokens + args.numExternalComputedTokens) p.1.blockSize) <| by
    constructor
    · intro h i m hm
      exact h (m, i) (List.mem_zipIdx_iff_getElem?.mpr hm)
    · intro h p hp
      exact h p.2 p.1 (List.mem_zipIdx_iff_getElem?.mp hp)

instance (k : KVCacheManagerConfig) (s : KVCacheManager) : ∀ op, Decidable (HitsFit k s op)
  | .allocateSlots request numNewTokens lookup external lookahead encoder delay =>
    match h : slotArgs k s request lookup external lookahead encoder delay with
    | .ok args =>
      match hslots : s.allocateSlots k request numNewTokens args with
      | .ok (some _, _) => decidable_of_iff (s.HitsFit request args) (by simp [HitsFit, h, hslots])
      | .ok (none, _) => isTrue (by simp [HitsFit, h, hslots])
      | .error _ => isTrue (by simp [HitsFit, h, hslots])
    | .error _ => isTrue (by simp [HitsFit, h])
  | .getComputedBlocks _ | .cacheBlocks _ _ | .removeSkippedBlocks _ _ | .evictBlocks _
  | .free _ | .resetPrefixCache | .getNumCommonPrefixBlocks _ | .takeNewBlockIds
  | .newStepStarts => isTrue trivial

end KVOp

namespace KVCacheManager

/-- The number of times the request lists of all managers hold `b`. -/
def occurrences (s : KVCacheManager) (b : BlockId) : Nat :=
  (s.singleTypeManagers.map fun m => (m.reqToBlocks.values.map (List.count b)).sum).sum

def unreferenced (k : KVCacheManagerConfig) (s : KVCacheManager) : List BlockId :=
  (List.range k.numGpuBlocks).filter fun b => b ≠ nullBlock ∧ s.blockPool.refCnt b = 0

structure Ownership (k : KVCacheManagerConfig) (s : KVCacheManager) : Prop where
  refCnt : ∀ b ≠ nullBlock, s.blockPool.refCnt b = s.occurrences b
  free : ∀ b ≠ nullBlock, b < k.numGpuBlocks →
    (b ∈ s.blockPool.freeBlockQueue ↔ s.blockPool.refCnt b = 0)
  freeOnce : s.blockPool.freeBlockQueue.Nodup
  freeValid : ∀ b ∈ s.blockPool.freeBlockQueue, b < k.numGpuBlocks
  distinct : ∀ m ∈ s.singleTypeManagers, ∀ l ∈ m.reqToBlocks.values, Distinct l
  nullNotFree : nullBlock ∉ s.blockPool.freeBlockQueue
  hashes : ∀ b key, s.blockPool.blockHash b = some key ↔
    b ∈ s.blockPool.cachedBlockHashToBlock key
  numFree : s.blockPool.numFreeBlocks = (s.unreferenced k).length

variable {k : KVCacheManagerConfig} {s s' : KVCacheManager} {h : BlockHasher}

theorem Ok.ownership (hok : s.Ok k.toPoolConfig) : s.Ownership k where
  refCnt b hb := hok.inv.refs b hb
  free b hb hlt := by
    rw [hok.inv.free.mem, hok.inv.refs b hb]
    simp [hb, hlt]
  freeOnce := hok.inv.free.nodup
  freeValid b hb := ((hok.inv.free.mem b).mp hb).2.1
  distinct m hm l hl := by
    obtain ⟨rid, hrid⟩ := Dict.mem_values.mp hl
    have := (hok.managers m hm).distinct rid
    rwa [SingleTypeKVCacheManager.blocksOf, Dict.getD, hrid] at this
  nullNotFree hmem := ((hok.inv.free.mem nullBlock).mp hmem).1 rfl
  hashes := hok.inv.hash.stored
  numFree := by
    rw [hok.inv.free.count]
    congr 1
    apply List.Perm.length_eq
    unfold unreferenced
    rw [List.perm_ext_iff_of_nodup hok.inv.free.nodup (List.nodup_range.filter _)]
    intro b
    rw [hok.inv.free.mem]
    simp only [List.mem_filter, List.mem_range, decide_eq_true_eq]
    constructor
    · rintro ⟨hb, hlt, h0⟩
      exact ⟨hlt, hb, by rw [hok.inv.refs b hb, h0]; rfl⟩
    · rintro ⟨hlt, hb, h0⟩
      rw [hok.inv.refs b hb] at h0
      exact ⟨hb, hlt, by exact_mod_cast h0⟩

theorem Ok.slotArgs (hok : s.Ok k.toPoolConfig) (hcf : h.CollisionFree) {request : Request}
    (hr : request.Linked h) (hpos : 0 < request.numTokens) (hcomputed : 0 ≤ request.numComputedTokens)
    (numNewTokens : Nat) {lookup delay : Bool} {external lookahead encoder : Nat} {args : SlotArgs}
    (hargs : KVOp.slotArgs k s request lookup external lookahead encoder delay = .ok args) :
    args.Counts request numNewTokens ∧
      ∀ i, HitOk k.toPoolConfig (args.newComputedBlocks.getD i []) := by
  unfold KVOp.slotArgs at hargs
  simp only at hargs
  split at hargs
  · simp only [Result.bind_eq_ok, Prod.exists, Result.pure_eq_ok] at hargs
    obtain ⟨hits, n, hget, rfl⟩ := hargs
    obtain ⟨hhits, hn⟩ := hok.getComputedBlocks hcf hr hpos hget
    exact ⟨⟨hcomputed, Int.natCast_nonneg _, hn, Int.natCast_nonneg _⟩, hhits⟩
  · cases hargs
    exact ⟨⟨hcomputed, Int.natCast_nonneg _, Int.le_refl 0, Int.natCast_nonneg _⟩,
      fun i => by simpa using HitOk.nil⟩

theorem Ok.step (hok : s.Ok k.toPoolConfig) (hcf : h.CollisionFree) {op : KVOp} (hop : op.Proper h)
    (hfit : op.HitsFit k s) (hstep : op.step k s = .ok s') : s'.Ok k.toPoolConfig := by
  cases op with
  | getComputedBlocks request =>
    simp only [KVOp.step, Result.bind_eq_ok, Result.pure_eq_ok] at hstep
    obtain ⟨-, -, rfl⟩ := hstep
    exact hok
  | allocateSlots request numNewTokens lookup external lookahead encoder delay =>
    simp only [KVOp.step, Result.bind_eq_ok, Prod.exists, Result.pure_eq_ok] at hstep
    obtain ⟨args, hargs, ret, s₁, hslots, rfl⟩ := hstep
    obtain ⟨hr, hpos, hcomputed⟩ := hop
    obtain ⟨hcounts, hhits⟩ := hok.slotArgs hcf hr hpos hcomputed numNewTokens hargs
    refine (hok.allocateSlots hcounts hhits (fun hsome => ?_) hslots).1
    obtain ⟨newBlocks, rfl⟩ := Option.ne_none_iff_exists'.mp hsome
    exact hfit args hargs newBlocks s₁ hslots
  | cacheBlocks request numComputedTokens => exact hok.cacheBlocks hstep
  | removeSkippedBlocks requestId totalComputedTokens => exact (hok.removeSkippedBlocks hstep).1
  | evictBlocks blockIds => exact hok.evictBlocks hstep
  | free requestId =>
    cases hstep
    exact hok.free.1
  | resetPrefixCache =>
    cases hstep
    exact hok.resetPrefixCache
  | getNumCommonPrefixBlocks requestId =>
    cases hstep
    exact hok.getNumCommonPrefixBlocks
  | takeNewBlockIds =>
    cases hstep
    exact hok.takeNewBlockIds
  | newStepStarts =>
    cases hstep
    exact hok.newStepStarts

/-- Every state of a run accounts for every block, as long as the hits passed on with external
tokens fit into the computed tokens. -/
theorem ownership_of_hitsFit (hcf : h.CollisionFree) (hpos : 0 < k.numGpuBlocks) {ops : List KVOp}
    (hops : ∀ op ∈ ops, op.Proper h)
    (hfit : Guarded (fun s op => op.step k s) (fun s op => op.HitsFit k s) k.init ops) :
    Throughout (fun s op => op.step k s) (Ownership k) k.init ops := by
  refine throughout_of_inv
    (G := fun s op => op.Proper h ∧ op.HitsFit k s)
    (fun s op s' hok hop hstep => hok.step hcf hop.1 hop.2 hstep) (fun s hok => hok.ownership)
    (init_ok hpos) ?_
  exact hfit.and_mem hops

/-- Two full attention groups whose specs differ, and a sliding window group. -/
def twoFullGroups : KVCacheManagerConfig where
  numGpuBlocks := 24
  enableCaching := true
  hashBlockSize := 1
  maxModelLen := 8
  useEagle := false
  kvCacheGroups :=
    [.fullAttention ⟨1, 2, 1, .float16, none⟩ 1 none none,
     .fullAttention ⟨1, 1, 2, .float16, none⟩ 2 none none,
     .slidingWindow ⟨1, 2, 1, .float16, none⟩ 2]

def fourTokens (requestId : ReqId) : Request :=
  RequestParams.init (some tokenBlockHasher) { requestId, promptTokenIds := some [1, 2, 3, 4] }

theorem fourTokens_proper (requestId : ReqId) : (fourTokens requestId).Linked tokenBlockHasher ∧
    0 < (fourTokens requestId).numTokens ∧ 0 ≤ (fourTokens requestId).numComputedTokens :=
  ⟨Request.linked_init _, Nat.succ_pos 3, Int.le_refl 0⟩

def equalHits : List KVOp :=
  [.allocateSlots (fourTokens "a") 4 false 0 0 0 false,
   .allocateSlots (fourTokens "b") 1 true 1 0 0 false]

theorem ownership_equalHits : Throughout (fun s op => op.step twoFullGroups s)
    (Ownership twoFullGroups) twoFullGroups.init equalHits :=
  ownership_of_hitsFit (BlockHasher.coded_collisionFree 1 Nat.one_pos) (by decide)
    (by
      intro op hop
      simp only [equalHits, List.mem_cons, List.not_mem_nil, or_false] at hop
      rcases hop with rfl | rfl <;> exact fourTokens_proper _)
    (by decide +kernel)

/-- The sliding window group misses, so nothing is a hit; only the first full attention group is
cut to that length. -/
def longerHits : List KVOp :=
  [.allocateSlots (fourTokens "a") 4 false 0 0 0 false,
   .evictBlocks [9, 10, 11, 12],
   .allocateSlots (fourTokens "b") 1 true 1 0 0 false]

/-- The counter of free blocks is two ahead of the free blocks, one even if the null block
counts. -/
theorem not_ownership_longerHits : (∀ op ∈ longerHits, op.Proper tokenBlockHasher) ∧
    ¬ Throughout (fun s op => op.step twoFullGroups s) (Ownership twoFullGroups)
      twoFullGroups.init longerHits ∧
    ∃ s, runSteps (fun s op => op.step twoFullGroups s) twoFullGroups.init longerHits = .ok s ∧
      s.blockPool.numFreeBlocks ≠
        ((List.range twoFullGroups.numGpuBlocks).filter (s.blockPool.refCnt · = 0)).length := by
  obtain ⟨s, hrun, hs⟩ := Result.exists_of_holds
    (x := runSteps (fun s op => op.step twoFullGroups s) twoFullGroups.init longerHits)
    (p := fun s => s.blockPool.numFreeBlocks ≠ (s.unreferenced twoFullGroups).length ∧
      s.blockPool.numFreeBlocks ≠
        ((List.range twoFullGroups.numGpuBlocks).filter (s.blockPool.refCnt · = 0)).length)
    (by decide +kernel)
  rw [decide_eq_true_eq] at hs
  refine ⟨?_, fun h => hs.1 (h.last hrun).numFree, s, hrun, hs.2⟩
  intro op hop
  simp only [longerHits, List.mem_cons, List.not_mem_nil, or_false] at hop
  rcases hop with rfl | rfl | rfl
  · exact fourTokens_proper _
  · trivial
  · exact fourTokens_proper _

end KVCacheManager

end Vllm
