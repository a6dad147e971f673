import Mathlib.Data.Finset.Basic
import Vllm.BlockPoolLaws
import Vllm.Lib.Run

namespace Vllm

def KVCacheEvent.consume (hashes : Finset ExternalBlockHash) :
    KVCacheEvent → Finset ExternalBlockHash
  | .blockStored blockHashes _ _ _ _ _ _ => hashes ∪ blockHashes.toFinset
  | .blockRemoved blockHashes => hashes \ blockHashes.toFinset
  | .allBlocksCleared => ∅

namespace BlockPool

variable {c : PoolConfig} {g : Nat} {p p' : BlockPool} {l : List BlockId}

def consumer (p : BlockPool) : Finset ExternalBlockHash :=
  p.kvEventQueue.foldl KVCacheEvent.consume ∅

def external (c : PoolConfig) (key : BlockHashWithGroupId) : ExternalBlockHash :=
  maybeConvertBlockHash c.useIntBlockHashes (getBlockHash key)

def Described (c : PoolConfig) (g : Nat) (p : BlockPool) : Prop :=
  ∀ e, e ∈ p.consumer ↔
    ∃ h, maybeConvertBlockHash c.useIntBlockHashes h = e ∧ (p.getCachedBlock h [g]).isSome

inductive Op
  | cacheFullBlocks (request : Request) (blocks : List BlockId)
      (numCachedBlocks numFullBlocks blockSize : Nat)
  | getNewBlocks (numBlocks : Nat)
  | touch (blocks : List BlockId)
  | freeBlocks (blocks : List BlockId)
  | evictBlocks (blockIds : List BlockId)
  | resetPrefixCache

def Op.step (c : PoolConfig) (g : Nat) (p : BlockPool) : Op → Result BlockPool
  | .cacheFullBlocks request blocks numCachedBlocks numFullBlocks blockSize =>
    p.cacheFullBlocks c request blocks numCachedBlocks numFullBlocks blockSize g
  | .getNewBlocks numBlocks => Prod.snd <$> p.getNewBlocks c numBlocks
  | .touch blocks => p.touch blocks
  | .freeBlocks blocks => .ok (p.freeBlocks blocks)
  | .evictBlocks blockIds => p.evictBlocks c blockIds
  | .resetPrefixCache => .ok (p.resetPrefixCache c).2

def Op.victims (c : PoolConfig) (p : BlockPool) : Op → List BlockId
  | .getNewBlocks numBlocks => if c.enableCaching then p.freeBlockQueue.take numBlocks else []
  | .evictBlocks blockIds => blockIds
  | _ => []

def Sole (c : PoolConfig) (p : BlockPool) (l : List BlockId) : Prop :=
  ∀ b ∈ l, ∀ b' < c.numGpuBlocks, ∀ key ∈ p.blockHash b, ∀ key' ∈ p.blockHash b',
    external c key' = external c key → b' ∈ l

/-- The blocks are those of the pool, and no block loses its hash while another one keeps it. -/
def Op.Allowed (c : PoolConfig) (p : BlockPool) (op : Op) : Prop :=
  (match op with
    | .cacheFullBlocks _ blocks _ _ _ => ∀ b ∈ blocks, b < c.numGpuBlocks
    | _ => True) ∧
  Sole c p (op.victims c p)

def Cached (c : PoolConfig) (p : BlockPool) (e : ExternalBlockHash) : Prop :=
  ∃ b key, p.blockHash b = some key ∧ external c key = e

instance (c : PoolConfig) (p : BlockPool) (l : List BlockId) : Decidable (Sole c p l) :=
  inferInstanceAs (Decidable (∀ b ∈ l, ∀ b' < c.numGpuBlocks, ∀ key ∈ p.blockHash b,
    ∀ key' ∈ p.blockHash b', external c key' = external c key → b' ∈ l))

instance (c : PoolConfig) (p : BlockPool) : (op : Op) → Decidable (op.Allowed c p)
  | .cacheFullBlocks _ blocks _ _ _ => inferInstanceAs (Decidable
      ((∀ b ∈ blocks, b < c.numGpuBlocks) ∧ Sole c p []))
  | .getNewBlocks _ => inferInstanceAs (Decidable (True ∧ Sole c p _))
  | .evictBlocks blockIds => inferInstanceAs (Decidable (True ∧ Sole c p blockIds))
  | .touch _ => inferInstanceAs (Decidable (True ∧ Sole c p []))
  | .freeBlocks _ => inferInstanceAs (Decidable (True ∧ Sole c p []))
  | .resetPrefixCache => inferInstanceAs (Decidable (True ∧ Sole c p []))

structure InStep (c : PoolConfig) (g : Nat) (p : BlockPool) : Prop where
  hash : p.HashOk c
  keys : ∀ b key, p.blockHash b = some key → ∃ h, key = makeBlockHashWithGroupId h g
  events : ∀ e, e ∈ p.consumer ↔ Cached c p e

theorem getBlockHash_make (h : BlockHash) (g : Nat) :
    getBlockHash (makeBlockHashWithGroupId h g) = h := by
  have hlen : (groupIdBytes g).length = 4 := rfl
  rw [getBlockHash, makeBlockHashWithGroupId, List.length_append, hlen, Nat.add_sub_cancel,
    List.take_left]

theorem InStep.described (h : InStep c g p) : Described c g p := by
  intro e
  rw [h.events]
  have hfound : ∀ hash, (p.getCachedBlock hash [g]).isSome ↔
      ∃ b, p.blockHash b = some (makeBlockHashWithGroupId hash g) := by
    intro hash
    simp only [getCachedBlock, getOneBlock, h.hash.stored]
    cases p.cachedBlockHashToBlock (makeBlockHashWithGroupId hash g) with
    | nil => simp
    | cons b l => simp
  constructor
  · rintro ⟨b, key, hkey, rfl⟩
    obtain ⟨hash, rfl⟩ := h.keys b key hkey
    exact ⟨hash, by rw [external, getBlockHash_make], (hfound hash).mpr ⟨b, hkey⟩⟩
  · rintro ⟨hash, rfl, hsome⟩
    obtain ⟨b, hb⟩ := (hfound hash).mp hsome
    exact ⟨b, _, hb, by rw [external, getBlockHash_make]⟩

theorem consumer_pushEvent (hev : c.enableKvCacheEvents = true) (e : KVCacheEvent) :
    (p.pushEvent c e).consumer = e.consume p.consumer := by
  rw [pushEvent, if_pos hev, consumer, List.foldl_append]
  rfl

structure Evicted (c : PoolConfig) (l : List BlockId) (p p' : BlockPool) : Prop where
  hash : p'.HashOk c
  blockHash : ∀ b, p'.blockHash b = if b ∈ l then none else p.blockHash b
  consumer : ∀ e, e ∈ p'.consumer ↔
    e ∈ p.consumer ∧ ∀ b ∈ l, ∀ key, p.blockHash b = some key → external c key ≠ e

theorem Evicted.refl (h : p.HashOk c) : Evicted c [] p p :=
  ⟨h, fun _ => rfl, fun _ => ⟨fun he => ⟨he, nofun⟩, fun he => he.1⟩⟩

theorem Evicted.cons {b : BlockId} {q : BlockPool} (h : Evicted c [b] p q)
    (h' : Evicted c l q p') : Evicted c (b :: l) p p' where
  hash := h'.hash
  blockHash := by
    intro b'
    rw [h'.blockHash, h.blockHash]
    by_cases hl : b' ∈ l <;> by_cases hb : b' = b <;> simp [hl, hb]
  consumer := by
    intro e
    rw [h'.consumer, h.consumer]
    constructor
    · rintro ⟨⟨he, hb⟩, hl⟩
      refine ⟨he, fun b' hb' key hkey => ?_⟩
      rcases List.mem_cons.mp hb' with rfl | hmem
      · exact hb b' List.mem_cons_self key hkey
      · by_cases heq : b' = b
        · exact hb b' (List.mem_singleton.mpr heq) key hkey
        · refine hl b' hmem key ?_
          rw [h.blockHash, if_neg (by simpa using heq), hkey]
    · rintro ⟨he, hall⟩
      refine ⟨⟨he, fun b' hb' key hkey => ?_⟩, fun b' hb' key hkey => ?_⟩
      · exact hall b' (List.mem_singleton.mp hb' ▸ List.mem_cons_self) key hkey
      · rw [h.blockHash] at hkey
        split at hkey
        · cases hkey
        · exact hall b' (List.mem_cons_of_mem b hb') key hkey

theorem evicted_maybeEvict (hev : c.enableKvCacheEvents = true) (h : p.HashOk c) (b : BlockId) :
    Evicted c [b] p (p.maybeEvictCachedBlock c b) where
  hash := h.maybeEvict b
  blockHash := by
    intro b'
    rw [h.maybeEvict_blockHash, Function.update_apply]
    simp only [List.mem_singleton]
  consumer := by
    intro e
    unfold maybeEvictCachedBlock
    simp only [List.mem_singleton, forall_eq]
    split
    · rename_i hnone
      rw [hnone]
      simp
    · rename_i key hkey
      rw [if_pos ((h.stored b key).mp hkey), consumer_pushEvent hev, hkey]
      simp only [KVCacheEvent.consume, List.toFinset_cons, List.toFinset_nil, Finset.mem_sdiff,
        Finset.mem_insert, Finset.notMem_empty, or_false, Option.some_inj, forall_eq']
      exact and_congr_right fun _ => ⟨fun hne heq => hne heq.symm, fun hne heq => hne heq.symm⟩

theorem InStep.evicted (h : InStep c g p) (hs : Sole c p l) (he : Evicted c l p p') :
    InStep c g p' where
  hash := he.hash
  keys := by
    intro b key hkey
    rw [he.blockHash] at hkey
    split at hkey
    · cases hkey
    · exact h.keys b key hkey
  events := by
    intro e
    rw [he.consumer, h.events]
    constructor
    · rintro ⟨⟨b, key, hkey, rfl⟩, hl⟩
      refine ⟨b, key, ?_, rfl⟩
      rw [he.blockHash, if_neg fun hb => hl b hb key hkey rfl, hkey]
    · rintro ⟨b, key, hkey, rfl⟩
      rw [he.blockHash] at hkey
      split at hkey
      · cases hkey
      · rename_i hb
        refine ⟨⟨b, key, hkey, rfl⟩, fun b' hb' key' hkey' heq => hb ?_⟩
        exact hs b' hb' b (h.hash.valid b key hkey).2 key' hkey' key hkey heq.symm

theorem InStep.of_same (h : InStep c g p) (hs : SameHashes p p')
    (hq : p'.kvEventQueue = p.kvEventQueue) : InStep c g p' where
  hash := h.hash.of_sameHashes hs
  keys := fun b key hkey => h.keys b key (hs.blockHash ▸ hkey)
  events := by
    intro e
    rw [consumer, hq, Cached, hs.blockHash]
    exact h.events e

theorem evicted_evictBlocks (hev : c.enableKvCacheEvents = true) (h : p.HashOk c)
    (hok : p.evictBlocks c l = .ok p') : Evicted c l p p' := by
  induction l generalizing p with
  | nil =>
    cases hok
    exact Evicted.refl h
  | cons b l ih =>
    simp only [BlockPool.evictBlocks, Result.bind_eq_ok, Result.ensure_eq_ok] at hok
    obtain ⟨-, -, hok⟩ := hok
    exact (evicted_maybeEvict hev h b).cons (ih (h.maybeEvict b) hok)

theorem evicted_claimBlocks (hev : c.enableKvCacheEvents = true) (hcache : c.enableCaching = true)
    (h : p.HashOk c) (hok : l.foldlM (claimBlock c) p = .ok p') : Evicted c l p p' := by
  induction l generalizing p with
  | nil =>
    cases hok
    exact Evicted.refl h
  | cons b l ih =>
    rw [List.foldlM_cons, Result.bind_eq_ok] at hok
    obtain ⟨q, hclaim, hok⟩ := hok
    simp only [claimBlock, if_pos hcache, Result.bind_eq_ok, Result.ensure_eq_ok,
      Result.pure_eq_ok] at hclaim
    obtain ⟨-, -, rfl⟩ := hclaim
    have hone := evicted_maybeEvict hev h b
    have hq : Evicted c [b] p { p.maybeEvictCachedBlock c b with
        refCnt := Function.update (p.maybeEvictCachedBlock c b).refCnt b
          ((p.maybeEvictCachedBlock c b).refCnt b + 1) } :=
      ⟨hone.hash.of_sameHashes ⟨rfl, rfl⟩, hone.blockHash, hone.consumer⟩
    exact hq.cons (ih hq.hash hok)

theorem same_claimBlocks (hcache : c.enableCaching = false)
    (hok : l.foldlM (claimBlock c) p = .ok p') :
    SameHashes p p' ∧ p'.kvEventQueue = p.kvEventQueue := by
  induction l generalizing p with
  | nil =>
    cases hok
    exact ⟨⟨rfl, rfl⟩, rfl⟩
  | cons b l ih =>
    rw [List.foldlM_cons, Result.bind_eq_ok] at hok
    obtain ⟨q, hclaim, hok⟩ := hok
    simp only [claimBlock, hcache, Bool.false_eq_true, if_false, Result.bind_eq_ok,
      Result.ensure_eq_ok, Result.pure_eq_ok] at hclaim
    obtain ⟨-, -, rfl⟩ := hclaim
    obtain ⟨hsame, hq⟩ := ih hok
    exact ⟨⟨hsame.1, hsame.2⟩, hq⟩

theorem popleftN_same {n : Int} {ret : List BlockId} (hok : p.popleftN n = .ok (ret, p')) :
    ret = p.freeBlockQueue.take n.toNat ∧ SameHashes p p' ∧ p'.kvEventQueue = p.kvEventQueue := by
  unfold popleftN at hok
  split at hok
  · rename_i hzero
    cases hok
    exact ⟨by rw [hzero]; rfl, ⟨rfl, rfl⟩, rfl⟩
  · simp only [Result.bind_eq_ok, Result.ensure_eq_ok, Result.pure_eq_ok, Prod.mk.injEq] at hok
    obtain ⟨-, -, -, -, rfl, rfl⟩ := hok
    exact ⟨rfl, ⟨rfl, rfl⟩, rfl⟩

theorem InStep.getNewBlocks (hev : c.enableKvCacheEvents = true) (h : InStep c g p) {n : Nat}
    {ret : List BlockId} (hs : Sole c p (Op.victims c p (.getNewBlocks n)))
    (hok : p.getNewBlocks c n = .ok (ret, p')) : InStep c g p' := by
  unfold BlockPool.getNewBlocks at hok
  split at hok
  · cases hok
  simp only [Result.bind_eq_ok, Result.pure_eq_ok, Prod.mk.injEq] at hok
  obtain ⟨⟨popped, q⟩, hpop, q', hclaim, rfl, rfl⟩ := hok
  obtain ⟨rfl, hsame, hq⟩ := popleftN_same hpop
  have hstep : InStep c g q := h.of_same hsame hq
  cases hcache : c.enableCaching with
  | true =>
    refine hstep.evicted ?_ (evicted_claimBlocks hev hcache hstep.hash hclaim)
    rw [Op.victims, if_pos hcache] at hs
    rw [Int.toNat_natCast, Sole, hsame.blockHash]
    exact hs
  | false =>
    obtain ⟨hsame', hq'⟩ := same_claimBlocks hcache hclaim
    exact hstep.of_same hsame' hq'

theorem same_touchBlock {b : BlockId} (hok : p.touchBlock b = .ok p') :
    SameHashes p p' ∧ p'.kvEventQueue = p.kvEventQueue := by
  unfold touchBlock at hok
  split at hok
  · split at hok
    · cases hok
      exact ⟨⟨rfl, rfl⟩, rfl⟩
    · cases hok
  · cases hok
    exact ⟨⟨rfl, rfl⟩, rfl⟩

theorem InStep.touch (h : InStep c g p) (hok : p.touch l = .ok p') : InStep c g p' :=
  Result.foldlM_keeps (P := InStep c g)
    (fun _ _ _ hq hone => hq.of_same (same_touchBlock hone).1 (same_touchBlock hone).2) h hok

theorem InStep.resetPrefixCache (hev : c.enableKvCacheEvents = true) (h : InStep c g p) :
    InStep c g (p.resetPrefixCache c).2 := by
  unfold BlockPool.resetPrefixCache
  split
  · exact h
  · simp only [pushEvent, if_pos hev]
    refine ⟨⟨by simp, by simp, fun _ => List.nodup_nil⟩, nofun, fun e => ?_⟩
    rw [consumer, List.foldl_append]
    refine iff_of_false (Finset.notMem_empty e) ?_
    rintro ⟨b, key, hkey, -⟩
    cases hkey

theorem cached_cacheNewFullBlocks {blks : List BlockId} {hashes newHashes : List BlockHash}
    (hok : cacheNewFullBlocks g p blks hashes = .ok (p', newHashes)) :
    p'.kvEventQueue = p.kvEventQueue ∧
      (∀ e, Cached c p' e ↔ Cached c p e ∨
        e ∈ newHashes.map (maybeConvertBlockHash c.useIntBlockHashes)) ∧
      ∀ b key, p'.blockHash b = some key →
        p.blockHash b = some key ∨ ∃ h, key = makeBlockHashWithGroupId h g := by
  induction blks generalizing p hashes newHashes with
  | nil =>
    cases hok
    exact ⟨rfl, fun e => by simp, fun b key hkey => .inl hkey⟩
  | cons blk blks ih =>
    unfold cacheNewFullBlocks at hok
    split at hok
    · exact ih hok
    · simp only [Result.bind_eq_ok, Result.ensure_eq_ok, Result.getItem_eq_ok, Result.pure_eq_ok,
        Prod.exists, Prod.mk.injEq] at hok
      obtain ⟨-, hnone, x, -, q, newHashes', hrec, rfl, rfl⟩ := hok
      obtain ⟨hq, hcached, hkeys⟩ := ih hrec
      obtain ⟨key, hkey⟩ : ∃ key, key = makeBlockHashWithGroupId x g := ⟨_, rfl⟩
      obtain ⟨p₁, hp₁⟩ : ∃ p₁, p₁ =
          { p with blockHash := Function.update p.blockHash blk (some key) } := ⟨_, rfl⟩
      rw [← hkey, ← hp₁] at hq hcached hkeys
      have hmore : ∀ b, (p₁.insert key blk).blockHash b =
          if b = blk then some key else p.blockHash b := by
        intro b
        rw [hp₁]
        exact Function.update_apply _ _ _ b
      have hexternal : external c key = maybeConvertBlockHash c.useIntBlockHashes x := by
        rw [hkey, external, getBlockHash_make]
      refine ⟨hq.trans (by rw [hp₁]; rfl), fun e => ?_, fun b k hk => ?_⟩
      · have hone : Cached c (p₁.insert key blk) e ↔
            Cached c p e ∨ e = maybeConvertBlockHash c.useIntBlockHashes x := by
          simp only [Cached, hmore]
          constructor
          · rintro ⟨b, k, hk, rfl⟩
            split at hk
            · rw [Option.some_inj] at hk
              rw [← hk]
              exact .inr hexternal
            · exact .inl ⟨b, k, hk, rfl⟩
          · rintro (⟨b, k, hk, rfl⟩ | rfl)
            · refine ⟨b, k, ?_, rfl⟩
              rw [if_neg, hk]
              rintro rfl
              rw [hnone] at hk
              cases hk
            · exact ⟨blk, key, if_pos rfl, hexternal⟩
        rw [hcached, hone, List.map_cons, List.mem_cons, or_assoc]
      · rcases hkeys b k hk with hold | hnew
        · rw [hmore] at hold
          split at hold
          · rw [Option.some_inj] at hold
            exact .inr ⟨x, hold.symm.trans hkey⟩
          · exact .inl hold
        · exact .inr hnew

theorem InStep.cacheFullBlocks (hev : c.enableKvCacheEvents = true) (h : InStep c g p)
    {request : Request} {blocks : List BlockId} {numCachedBlocks numFullBlocks blockSize : Nat}
    (hlt : ∀ b ∈ blocks, b < c.numGpuBlocks)
    (hok : p.cacheFullBlocks c request blocks numCachedBlocks numFullBlocks blockSize g = .ok p') :
    InStep c g p' := by
  unfold BlockPool.cacheFullBlocks at hok
  split at hok
  · cases hok
    exact h
  simp only [Result.bind_eq_ok, Result.ensure_eq_ok, Prod.exists] at hok
  obtain ⟨-, -, -, -, q, newHashes, hloop, hok⟩ := hok
  obtain ⟨event, hevent, hok⟩ := hok
  rw [Result.pure_eq_ok] at hok
  subst hok
  have hstored := h.hash.cacheNewFullBlocks
    (fun b hb _ => hlt b (List.mem_of_mem_take (List.mem_of_mem_drop hb))) hloop
  obtain ⟨hq, hcached, hkeys⟩ := cached_cacheNewFullBlocks (c := c) hloop
  obtain ⟨parent, ids, lora, name, extra, rfl⟩ : ∃ parent ids lora name extra,
      event = .blockStored (newHashes.map (maybeConvertBlockHash c.useIntBlockHashes)) parent ids
        blockSize lora name extra := by
    unfold storedEvent at hevent
    split at hevent
    · simp only [Result.bind_eq_ok, Result.pure_eq_ok] at hevent
      obtain ⟨parent, -, extra, -, rfl⟩ := hevent
      exact ⟨_, _, _, _, _, rfl⟩
    · simp only [Result.bind_eq_ok, Result.pure_eq_ok] at hevent
      obtain ⟨parent, -, extra, -, rfl⟩ := hevent
      exact ⟨_, _, _, _, _, rfl⟩
  have hsame : (q.pushEvent c (.blockStored (newHashes.map
      (maybeConvertBlockHash c.useIntBlockHashes)) parent ids blockSize lora name extra)).blockHash =
      q.blockHash := by rw [pushEvent, if_pos hev]
  refine ⟨hstored.hash.of_sameHashes ⟨by simp, by simp⟩, fun b key hkey => ?_, fun e => ?_⟩
  · rw [hsame] at hkey
    rcases hkeys b key hkey with hold | hnew
    · exact h.keys b key hold
    · exact hnew
  · rw [consumer_pushEvent hev, KVCacheEvent.consume, Finset.mem_union, List.mem_toFinset, Cached,
      hsame, ← Cached, hcached, ← h.events e, consumer, hq]
    rfl

theorem InStep.step (hev : c.enableKvCacheEvents = true) (h : InStep c g p) {op : Op}
    (hop : op.Allowed c p) (hok : op.step c g p = .ok p') : InStep c g p' := by
  obtain ⟨hlt, hs⟩ := hop
  cases op with
  | cacheFullBlocks request blocks numCachedBlocks numFullBlocks blockSize =>
    exact h.cacheFullBlocks hev hlt hok
  | getNewBlocks n =>
    obtain ⟨⟨ret, q⟩, hnew, rfl⟩ := Result.map_eq_ok.mp hok
    exact h.getNewBlocks hev hs hnew
  | touch blocks => exact h.touch hok
  | freeBlocks blocks =>
    cases hok
    exact h.of_same (freeBlocks_sameHashes blocks) rfl
  | evictBlocks ids => exact h.evicted hs (evicted_evictBlocks hev h.hash hok)
  | resetPrefixCache =>
    cases hok
    exact h.resetPrefixCache hev

/-- If no block loses a hash that another cached block has, the events describe the cache. -/
theorem described_of_sole (hev : c.enableKvCacheEvents = true) {ops : List Op}
    (hops : Guarded (fun p op => op.step c g p) (fun p op => op.Allowed c p) (init c) ops) :
    Throughout (fun p op => op.step c g p) (Described c g) (init c) ops := by
  refine throughout_of_inv (fun p op p' (h : InStep c g p) hop hok => h.step hev hop hok)
    (fun p h => h.described) ⟨⟨by simp [init], by simp [init], fun _ => List.nodup_nil⟩, ?_, ?_⟩
    hops
  · intro b key hkey
    cases hkey
  intro e
  refine iff_of_false (Finset.notMem_empty e) ?_
  rintro ⟨b, key, hkey, -⟩
  cases hkey

def fourBlocks : PoolConfig where
  numGpuBlocks := 4
  enableCaching := true
  hashBlockSize := 2
  enableKvCacheEvents := true

def twoBlocks : Request where
  requestId := "a"
  allTokenIds := [1, 2, 3, 4]
  numPromptTokens := 4
  blockHashes := [[1], [2]]

def cacheAndEvict : List Op :=
  [.getNewBlocks 2, .cacheFullBlocks twoBlocks [1, 2] 0 2 2, .freeBlocks [2, 1], .touch [1],
   .freeBlocks [1], .getNewBlocks 2, .evictBlocks [1], .freeBlocks [2, 3], .resetPrefixCache]

theorem described_cacheAndEvict :
    Throughout (fun p op => op.step fourBlocks 0 p) (Described fourBlocks 0) (init fourBlocks)
      cacheAndEvict :=
  described_of_sole rfl (by decide +kernel)

/-- The same first block of two requests, of which one is freed and taken again. -/
def sameHashTwice : List Op :=
  [.getNewBlocks 2, .cacheFullBlocks twoBlocks [1] 0 1 2, .cacheFullBlocks twoBlocks [2] 0 1 2,
   .freeBlocks [1], .getNewBlocks 2]

theorem not_described_sameHashTwice : ∃ p,
    runSteps (fun p op => op.step fourBlocks 0 p) (init fourBlocks) sameHashTwice = .ok p ∧
      ¬ Described fourBlocks 0 p := by
  refine ⟨_, rfl, fun h => ?_⟩
  exact absurd ((h (.bytes [1])).mpr ⟨[1], rfl, rfl⟩) (by decide +kernel)

end BlockPool

end Vllm
