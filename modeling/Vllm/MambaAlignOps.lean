import Vllm.KVInvariant
import Vllm.MambaAlign

namespace Vllm

open BlockPool Result

namespace SingleTypeKVCacheManager

variable {c : PoolConfig} {rest : BlockId → Nat} {p p' : BlockPool} {m m' : SingleTypeKVCacheManager}
variable {spec : MambaSpec} {rid rid' : ReqId} {hits : List BlockId} {q : Nat}

theorem freeLastState_other (hne : rid ≠ rid') {n : Int} (hok : m.freeLastState p rid' n = .ok (p', m')) :
    SameRequest rid m m' := by
  unfold freeLastState at hok
  split at hok
  · cases hok
    exact .refl
  · split at hok
    · dsimp only at hok
      split at hok
      · cases hok
      · split at hok
        all_goals
          cases hok
          exact .setBlocks fun heq => absurd heq hne
    · cases hok
      exact .refl

theorem baseRemoveSkippedBlocks_other (hne : rid ≠ rid') (n : Int) :
    SameRequest rid m (m.baseRemoveSkippedBlocks p rid' n).2 := by
  unfold baseRemoveSkippedBlocks
  dsimp only
  split
  · exact .refl
  · exact .setBlocks fun heq => absurd heq hne

theorem IsAlign.removeSkippedBlocks_eq_ok (hm : m.IsAlign spec) {n : Int}
    (hok : m.removeSkippedBlocks p rid n = .ok (p', m')) :
    ∃ k p₁ m₁, m.baseRemoveSkippedBlocks p rid k = (p₁, m₁) ∧ m₁.freeLastState p₁ rid k = .ok (p', m') := by
  unfold removeSkippedBlocks at hok
  rw [hm.kvCacheSpec] at hok
  dsimp only at hok
  rw [if_pos hm.mode] at hok
  exact ⟨_, _, _, rfl, hok⟩

theorem IsAlign.removeSkippedBlocks_other (hm : m.IsAlign spec) (hne : rid ≠ rid') {n : Int}
    (hok : m.removeSkippedBlocks p rid' n = .ok (p', m')) : SameRequest rid m m' := by
  obtain ⟨k, p₁, m₁, hbase, hlast⟩ := hm.removeSkippedBlocks_eq_ok hok
  have hfirst := @baseRemoveSkippedBlocks_other p m rid rid' hne k
  rw [hbase] at hfirst
  exact hfirst.trans (freeLastState_other hne hlast)

theorem Unstarted.removeSkippedBlocks (hm : m.IsAlign spec) (h : m.Unstarted rid []) {n : Int}
    (hok : m.removeSkippedBlocks p rid n = .ok (p', m')) : SameRequest rid m m' := by
  obtain ⟨k, p₁, m₁, hbase, hlast⟩ := hm.removeSkippedBlocks_eq_ok hok
  have hfirst : SameRequest rid m m₁ := by
    have hm₁ : (m.baseRemoveSkippedBlocks p rid k).2 = m₁ := by rw [hbase]
    rw [← hm₁]
    unfold baseRemoveSkippedBlocks
    dsimp only
    split
    · exact .refl
    · refine .setBlocks fun _ => ?_
      rw [h.blocks]
      refine List.length_eq_zero_iff.mp ?_
      rw [nullSkipped_length]
      rfl
  have hnone := hfirst.last.trans h.last
  unfold freeLastState at hlast
  rw [hnone] at hlast
  cases hlast
  exact hfirst

theorem IsAlign.getNumBlocksToAllocate (hm : m.IsAlign spec) {n total main k : Int}
    (hok : m.getNumBlocksToAllocate c p rid' n hits total main = .ok (k, m')) : SameRequest rid m m' := by
  unfold SingleTypeKVCacheManager.getNumBlocksToAllocate at hok
  rw [hm.kvCacheSpec] at hok
  dsimp only at hok
  rw [if_neg (show ¬ spec.mambaCacheMode ≠ .align from not_not.mpr hm.mode)] at hok
  split at hok
  · cases hok
    exact .refl
  · cases hok
    exact .setBlocks fun heq => by rw [heq]

theorem IsAlign.allocateNewComputedBlocks_eq_ok (hm : m.IsAlign spec) {n : Int}
    (hok : m.allocateNewComputedBlocks c p rid hits n 0 = .ok (p', m')) :
    hits = [] ∧ m' = m ∨ m.blocksOf rid = [] ∧ ∃ k, m' =
      { m.setBlocks rid (List.replicate ((n - 1) / m.blockSize).toNat nullBlock ++
          hits.drop ((n - 1) / m.blockSize).toNat) with numCachedBlock := m.numCachedBlock.set rid k } := by
  unfold allocateNewComputedBlocks at hok
  rw [if_neg (by rw [hm.kvCacheSpec]; exact Bool.false_ne_true)] at hok
  split at hok
  · simp only [bind_eq_ok, ensure_eq_ok, pure_eq_ok, Prod.mk.injEq] at hok
    obtain ⟨-, hlen, -, rfl⟩ := hok
    exact .inl ⟨List.length_eq_zero_iff.mp hlen, rfl⟩
  · have hskip : m.getNumSkippedTokens (n + 0) = n - 1 := by
      rw [getNumSkippedTokens, hm.kvCacheSpec, Int.add_zero]
    simp only [bind_eq_ok, ensure_eq_ok, hskip] at hok
    obtain ⟨-, hempty, p₁, -, hok⟩ := hok
    refine .inr ⟨List.length_eq_zero_iff.mp hempty, ?_⟩
    -- there are no external tokens
    have hext : ¬ (if (n - 1) / (m.blockSize : Int) > 0 then min (n + 0 - (n - 1)) 0 else 0) > 0 := by
      split <;> omega
    have hdrop : (if (n - 1) / (m.blockSize : Int) > 0 then
          hits.drop ((n - 1) / (m.blockSize : Int)).toNat else hits) =
        hits.drop ((n - 1) / (m.blockSize : Int)).toNat := by
      split
      · rfl
      · rw [Int.toNat_of_nonpos (by omega), List.drop_zero]
    unfold allocateExternal at hok
    rw [if_neg hext, hdrop] at hok
    cases hok
    exact ⟨_, rfl⟩

theorem IsAlign.allocateNewComputedBlocks_other (hm : m.IsAlign spec) (hne : rid ≠ rid') {n : Int}
    (hok : m.allocateNewComputedBlocks c p rid' hits n 0 = .ok (p', m')) : SameRequest rid m m' := by
  rcases hm.allocateNewComputedBlocks_eq_ok hok with ⟨-, rfl⟩ | ⟨-, k, rfl⟩
  · exact .refl
  · have hset : SameRequest rid m (m.setBlocks rid' (List.replicate ((n - 1) / m.blockSize).toNat nullBlock ++
        hits.drop ((n - 1) / m.blockSize).toNat)) := .setBlocks fun heq => absurd heq hne
    exact ⟨hset.static.trans ⟨rfl, rfl, rfl⟩, hset.allocated, hset.blocks, hset.last⟩

theorem Unstarted.allocateNewComputedBlocks (hm : m.IsAlign spec) (h : m.Unstarted rid []) {n : Int}
    (hhit : MambaHit m.blockSize hits n)
    (hok : m.allocateNewComputedBlocks c p rid hits n 0 = .ok (p', m')) :
    m'.Unstarted rid hits ∧ SameStatic m m' := by
  rcases hm.allocateNewComputedBlocks_eq_ok hok with ⟨rfl, rfl⟩ | ⟨-, k, rfl⟩
  · exact ⟨h, .refl⟩
  · have hpos : (0 : Int) < m.blockSize := by exact_mod_cast hm.pos
    have hlist : List.replicate ((n - 1) / m.blockSize).toNat nullBlock ++
        hits.drop ((n - 1) / m.blockSize).toNat = hits := by
      rcases hhit with ⟨rfl, rfl⟩ | ⟨i, b, rfl, -, rfl⟩
      · have hneg : ((0 - 1) / (m.blockSize : Int)) < 0 := Int.ediv_neg_of_neg_of_pos (by omega) hpos
        rw [Int.toNat_of_nonpos (by omega)]
        rfl
      · have hdiv : (((i + 1 : Nat) : Int) * m.blockSize - 1) / (m.blockSize : Int) = i := by
          rw [Int.ediv_eq_iff_of_pos hpos]
          push_cast
          rw [Int.add_mul, Int.one_mul]
          omega
        rw [hdiv, Int.toNat_natCast, List.drop_left' (List.length_replicate ..)]
    rw [hlist]
    refine ⟨⟨h.allocated, ?_, h.last⟩, ⟨rfl, rfl, rfl⟩⟩
    show (m.setBlocks rid hits).blocksOf rid = hits
    rw [blocksOf_setBlocks, if_pos rfl]

theorem IsAlign.allocateNewBlocks_eq (hm : m.IsAlign spec) (n main : Int) :
    m.allocateNewBlocks c p rid n main = m.alignAllocateNewBlocks c p spec rid main := by
  unfold allocateNewBlocks
  rw [hm.kvCacheSpec]
  exact if_neg (not_not.mpr hm.mode)

theorem IsAlign.allocateNewBlocks_other (hm : m.IsAlign spec) (hne : rid ≠ rid') {n main : Int}
    {ret : List BlockId} (hok : m.allocateNewBlocks c p rid' n main = .ok (ret, p', m')) :
    SameRequest rid m m' := by
  rw [hm.allocateNewBlocks_eq] at hok
  unfold alignAllocateNewBlocks at hok
  simp only at hok
  split at hok
  · cases hok
    exact .setBlocks fun heq => absurd heq hne
  · simp only [bind_eq_ok, ensure_eq_ok, Prod.exists, pure_eq_ok, Prod.mk.injEq] at hok
    obtain ⟨-, -, l, -, -, -, new, p₁, -, -, -, rfl⟩ := hok
    have hrecord : SameRequest rid m (m.recordLastState spec rid' (m.blocksOf rid').length) := by
      refine ⟨recordLastState_static spec _, by rw [recordLastState_allocated], ?_, ?_⟩
      · rw [blocksOf, recordLastState_reqToBlocks]
        rfl
      · unfold recordLastState
        split
        · simp [Ne.symm hne]
        · split
          · simp [Ne.symm hne]
          · rfl
    have hset : SameRequest rid (m.recordLastState spec rid' (m.blocksOf rid').length)
        ((m.recordLastState spec rid' (m.blocksOf rid').length).setBlocks rid' (l ++ new)) :=
      .setBlocks fun heq => absurd heq hne
    have hboth := hrecord.trans hset
    refine ⟨hboth.static.trans ⟨rfl, rfl, rfl⟩, ?_, hboth.blocks, hboth.last⟩
    show rid ∈ List.insert rid' _ ↔ _
    rw [List.mem_insert_iff]
    exact ⟨fun h => hboth.allocated.mp (h.resolve_left hne), fun h => .inr (hboth.allocated.mpr h)⟩

theorem baseCacheBlocks_same {request : Request} {n : Int}
    (hok : m.baseCacheBlocks c p request n = .ok (p', m')) : SameRequest rid m m' := by
  unfold baseCacheBlocks at hok
  dsimp only at hok
  split at hok
  · cases hok
    exact .refl
  · simp only [bind_eq_ok, pure_eq_ok, Prod.mk.injEq] at hok
    obtain ⟨p₁, -, -, rfl⟩ := hok
    have hset : SameRequest rid m (m.setBlocks request.requestId (m.blocksOf request.requestId)) :=
      .setBlocks fun heq => by rw [heq]
    exact ⟨hset.static.trans ⟨rfl, rfl, rfl⟩, hset.allocated, hset.blocks, hset.last⟩

theorem IsAlign.cacheBlocks (hm : m.IsAlign spec) {request : Request} {n : Int}
    (hok : m.cacheBlocks c p request n = .ok (p', m')) : SameRequest rid m m' := by
  unfold SingleTypeKVCacheManager.cacheBlocks at hok
  rw [hm.kvCacheSpec] at hok
  simp only [bind_eq_ok, Prod.exists] at hok
  obtain ⟨p₁, m₁, hbase, hok⟩ := hok
  have hsame : SameRequest rid m m₁ := baseCacheBlocks_same hbase
  split at hok
  · simp only [bind_eq_ok, pure_eq_ok, Prod.mk.injEq] at hok
    obtain ⟨keys, -, -, rfl⟩ := hok
    exact ⟨hsame.static.trans ⟨rfl, rfl, rfl⟩, hsame.allocated, hsame.blocks, hsame.last⟩
  · simp only [pure_eq_ok, Prod.mk.injEq] at hok
    obtain ⟨-, rfl⟩ := hok
    exact hsame

theorem IsAlign.free_other (hm : m.IsAlign spec) (hne : rid ≠ rid') :
    SameRequest rid m (m.free p rid').2 := by
  unfold SingleTypeKVCacheManager.free forgetState
  rw [hm.kvCacheSpec]
  dsimp only
  rw [if_pos hm.mode]
  refine ⟨⟨hm.kvCacheSpec.symm, rfl, rfl⟩, ?_, ?_, ?_⟩
  · simp [hne]
  · simp [blocksOf, Dict.getD, Ne.symm hne]
  · simp [Ne.symm hne]

theorem IsAlign.free (hm : m.IsAlign spec) : (m.free p rid).2.Unstarted rid [] := by
  unfold SingleTypeKVCacheManager.free forgetState
  rw [hm.kvCacheSpec]
  dsimp only
  rw [if_pos hm.mode]
  refine ⟨?_, ?_, ?_⟩
  · simp
  · simp [blocksOf, Dict.getD]
  · simp

def AlignAssertion : PyError → Prop
  | .assertionError msg => msg = "num_required_blocks" ∨ msg = "num_new_blocks"
  | _ => False

attribute [local simp] AlignAssertion

@[simp] theorem getNewBlocks_avoids_align {n : Int} : Avoids AlignAssertion (p.getNewBlocks c n) := by
  simp [getNewBlocks, popleftN, claimBlock, avoids_foldlM]

theorem touch_avoids_align {blocks : List BlockId} : Avoids AlignAssertion (p.touch blocks) := by
  simp [touch, touchBlock, avoids_foldlM]

theorem removeSkippedBlocks_avoids_align {n : Int} : Avoids AlignAssertion (m.removeSkippedBlocks p rid n) := by
  unfold SingleTypeKVCacheManager.removeSkippedBlocks
  split
  · dsimp only
    split
    · unfold SingleTypeKVCacheManager.freeLastState
      split
      · simp
      · split
        · dsimp only
          split <;> simp
        · simp
    · simp
  · simp

theorem getNumBlocksToAllocate_avoids_align {n total main : Int} :
    Avoids AlignAssertion (m.getNumBlocksToAllocate c p rid n hits total main) := by
  unfold SingleTypeKVCacheManager.getNumBlocksToAllocate baseNumBlocksToAllocate
  split <;> simp

theorem allocateNewComputedBlocks_avoids_align {n k : Int} :
    Avoids AlignAssertion (m.allocateNewComputedBlocks c p rid hits n k) := by
  simp [SingleTypeKVCacheManager.allocateNewComputedBlocks, touchComputedBlocks, allocateExternal,
    touch_avoids_align]

theorem cacheNewFullBlocks_avoids_align {g : Nat} {blocks : List BlockId} {hashes : List BlockHash} :
    Avoids AlignAssertion (cacheNewFullBlocks g p blocks hashes) := by
  induction blocks generalizing p hashes with
  | nil => simp [cacheNewFullBlocks]
  | cons b blocks ih => simp [cacheNewFullBlocks, ih]

theorem extraKeysList_avoids_align {request : Request} {blocks : List BlockId} {blockSize n i : Nat} {mm : Int} :
    Avoids AlignAssertion (extraKeysList c request blocks blockSize n i mm) := by
  induction n generalizing i mm with
  | zero => simp [extraKeysList]
  | succ n ih => simp [extraKeysList, ih]

theorem hashesOf_avoids_align {blocks : List BlockId} : Avoids AlignAssertion (hashesOf p blocks) := by
  induction blocks with
  | nil => simp [hashesOf]
  | cons b blocks ih =>
    unfold hashesOf
    split
    · exact ih
    · split <;> simp [ih]

theorem cacheBlocks_avoids_align {request : Request} {n : Int} :
    Avoids AlignAssertion (m.cacheBlocks c p request n) := by
  have hbase : Avoids AlignAssertion (m.baseCacheBlocks c p request n) := by
    simp [baseCacheBlocks, cacheFullBlocks, storedEvent, cacheNewFullBlocks_avoids_align,
      extraKeysList_avoids_align]
  unfold SingleTypeKVCacheManager.cacheBlocks
  split <;> simp [hbase, hashesOf_avoids_align]

theorem allocateNewBlocks_avoids_align (hm : ∀ spec, m.kvCacheSpec = .mamba spec → spec.mambaCacheMode ≠ .align)
    {n main : Int} : Avoids AlignAssertion (m.allocateNewBlocks c p rid n main) := by
  unfold SingleTypeKVCacheManager.allocateNewBlocks
  split
  · rename_i spec hspec
    rw [if_pos (hm spec hspec)]
    simp [baseAllocateNewBlocks]
  · simp [baseAllocateNewBlocks]

theorem Running.alignAllocateNewBlocks_avoids (h : m.Running spec rid q) {n : Int} {q' : Nat}
    (hq' : Py.cdiv n m.blockSize = q') (hle : q ≤ q')
    (hfree : q < q' → StateList spec.numSpeculativeBlocks q none (m.blocksOf rid)) :
    Avoids AlignAssertion (m.alignAllocateNewBlocks c p spec rid n) := by
  rcases h.alignAllocateNewBlocks (c := c) (p := p) hq' hle hfree with ⟨heq, -⟩ | ⟨_, _, -, heq, -⟩
  · rw [heq]
    exact avoids_ok
  · rw [heq, avoids_bind]
    exact ⟨getNewBlocks_avoids_align, fun _ _ => avoids_ok⟩

theorem Unstarted.alignAllocateNewBlocks_avoids (h : m.Unstarted rid hits) {n : Int} {q' : Nat}
    (hq' : Py.cdiv n m.blockSize = q') (hlt : hits.length < q') :
    Avoids AlignAssertion (m.alignAllocateNewBlocks c p spec rid n) := by
  rw [h.alignAllocateNewBlocks hq' hlt, avoids_bind]
  exact ⟨getNewBlocks_avoids_align, fun _ _ => avoids_ok⟩

/-! A request between the calls of the cache manager. -/

def Covers (m : SingleTypeKVCacheManager) (spec : MambaSpec) (rid : ReqId) : Option Int → Prop
  | none => m.Unstarted rid []
  | some n => ∃ q : Nat, Py.cdiv n m.blockSize = q ∧ m.Running spec rid q

theorem Covers.congr {covered : Option Int} (h : m.Covers spec rid covered) (hsame : SameRequest rid m m') :
    m'.Covers spec rid covered := by
  cases covered with
  | none => exact Unstarted.congr h hsame
  | some n =>
    obtain ⟨q, hq, hrun⟩ := h
    exact ⟨q, hsame.static.blockSize ▸ hq, hrun.congr hsame⟩

/-- Before `allocate_new_blocks`: a request that holds the list `old` but for an older state, or a new
request that holds its hits. -/
inductive Ready (spec : MambaSpec) (rid : ReqId) (old hits : List BlockId) (q' : Nat)
    (m : SingleTypeKVCacheManager) : Prop
  | running (q : Nat) (running : m.Running spec rid q) (le : q ≤ q')
      (released : q < q' → StateList spec.numSpeculativeBlocks q none (m.blocksOf rid))
      (kept : lastBlocks spec.numSpeculativeBlocks (m.blocksOf rid) = lastBlocks spec.numSpeculativeBlocks old)
      (nonNull : nullBlock ∉ lastBlocks spec.numSpeculativeBlocks old) (noHits : hits = [])
  | unstarted (n : Int) (unstarted : m.Unstarted rid hits) (lt : hits.length < q')
      (hit : MambaHit m.blockSize hits n) (empty : old = [])

theorem Ready.avoids {old : List BlockId} {q' : Nat} (h : m.Ready spec rid old hits q') {n : Int}
    (hq' : Py.cdiv n m.blockSize = q') : Avoids AlignAssertion (m.alignAllocateNewBlocks c p spec rid n) := by
  cases h with
  | running q running le released => exact running.alignAllocateNewBlocks_avoids hq' le released
  | unstarted n unstarted lt => exact unstarted.alignAllocateNewBlocks_avoids hq' lt

structure StateKept (s : Nat) (old hits blocks : List BlockId) : Prop where
  budget : (blocks.filter (· ≠ nullBlock)).length ≤ 2 + s
  length : (lastBlocks s blocks).length = 1 + s
  nodup : (lastBlocks s blocks).Nodup
  nonNull : nullBlock ∉ lastBlocks s blocks
  state : ∀ b ∈ lastBlocks s old, b ≠ nullBlock ∧ b ∈ blocks
  hit : ∀ b, hits.getLast? = some b → b ≠ nullBlock ∧ b ∈ blocks

theorem Ready.allocated_ok {old : List BlockId} {q' : Nat} (h : m.Ready spec rid old hits q')
    (hown : Owned c rest p m) {n : Int} (hq' : Py.cdiv n m.blockSize = q') {ret : List BlockId}
    (hok : m.alignAllocateNewBlocks c p spec rid n = .ok (ret, p', m')) (hown' : Owned c rest p' m') :
    m'.Running spec rid q' ∧ StateKept spec.numSpeculativeBlocks old hits (m'.blocksOf rid) := by
  have hkept : m'.Running spec rid q' → (∀ b ∈ lastBlocks spec.numSpeculativeBlocks old,
      b ≠ nullBlock ∧ b ∈ m'.blocksOf rid) → (∀ b, hits.getLast? = some b → b ≠ nullBlock ∧ b ∈ m'.blocksOf rid) →
      StateKept spec.numSpeculativeBlocks old hits (m'.blocksOf rid) := by
    intro hrun hstate hhit
    obtain ⟨hlen, hnodup, hnull⟩ := hrun.blocks.lastBlocks (hown'.ok.distinct rid)
    exact ⟨hrun.blocks.nonNull, by omega, hnodup, hnull, hstate, hhit⟩
  cases h with
  | running q running le released kept nonNull noHits =>
    obtain ⟨hrun, hkeep⟩ := running.allocated_ok hown hq' le released hok
    refine ⟨hrun, hkept hrun (fun b hb => ⟨fun heq => nonNull (heq ▸ hb), hkeep b (kept ▸ hb)⟩) ?_⟩
    rw [noHits]
    nofun
  | unstarted k unstarted lt hit empty =>
    obtain ⟨hrun, hkeep⟩ := unstarted.allocated_ok hown hq' lt hit hok
    refine ⟨hrun, hkept hrun ?_ fun b hb => ⟨?_, hkeep b (List.mem_of_getLast? hb)⟩⟩
    · rw [empty]
      intro b hb
      simp [lastBlocks] at hb
    · rcases hit with ⟨rfl, -⟩ | ⟨i, b', rfl, hb', -⟩
      · cases hb
      · rw [List.getLast?_append_of_ne_nil _ (by simp)] at hb
        simp only [List.getLast?_singleton, Option.some_inj] at hb
        exact hb ▸ hb'

end SingleTypeKVCacheManager

end Vllm
