import Mathlib.Data.List.Count
import Mathlib.Data.List.Nodup
import Vllm.BlockPool

/-! The ownership invariant of the block pool. `own b` is the number of places outside the pool
that hold block `b`; every operation is specified by how it changes `own`. -/

namespace Vllm

namespace BlockPool

structure FreeOk (c : PoolConfig) (own : BlockId → Nat) (p : BlockPool) : Prop where
  nodup : p.freeBlockQueue.Nodup
  mem : ∀ b, b ∈ p.freeBlockQueue ↔ b ≠ nullBlock ∧ b < c.numGpuBlocks ∧ own b = 0
  count : p.numFreeBlocks = p.freeBlockQueue.length

structure HashOk (c : PoolConfig) (p : BlockPool) : Prop where
  stored : ∀ b key, p.blockHash b = some key ↔ b ∈ p.cachedBlockHashToBlock key
  valid : ∀ b key, p.blockHash b = some key → b ≠ nullBlock ∧ b < c.numGpuBlocks
  nodup : ∀ key, (p.cachedBlockHashToBlock key).Nodup

structure Inv (c : PoolConfig) (own : BlockId → Nat) (p : BlockPool) : Prop where
  refs : ∀ b ≠ nullBlock, p.refCnt b = own b
  valid : ∀ b ≠ nullBlock, own b ≠ 0 → b < c.numGpuBlocks
  free : p.FreeOk c own
  hash : p.HashOk c

variable {c : PoolConfig} {own : BlockId → Nat} {p p' : BlockPool}

theorem init_inv (hpos : 0 < c.numGpuBlocks) : (init c).Inv c fun _ => 0 where
  refs _ _ := rfl
  valid _ _ h := absurd rfl h
  free :=
    { nodup := List.nodup_range'
      mem := by
        have hrange : ∀ n b : Nat, 0 < n → (b ∈ List.range' 1 (n - 1) ↔ b ≠ 0 ∧ b < n) := by
          intro n b hn
          rw [List.mem_range'_1]
          omega
        intro b
        simpa [init, nullBlock] using hrange c.numGpuBlocks b hpos
      count := by
        simp only [init, List.length_range']
        omega }
  hash := ⟨by simp [init], by simp [init], fun _ => List.nodup_nil⟩

theorem Inv.congr {own' : BlockId → Nat} (h : p.Inv c own) (heq : ∀ b ≠ nullBlock, own b = own' b) :
    p.Inv c own' where
  refs b hb := by rw [h.refs b hb, heq b hb]
  valid b hb := by rw [← heq b hb]; exact h.valid b hb
  free :=
    { h.free with
      mem := by
        intro b
        rw [h.free.mem]
        constructor
        · rintro ⟨hb, hlt, h0⟩
          exact ⟨hb, hlt, (heq b hb).symm.trans h0⟩
        · rintro ⟨hb, hlt, h0⟩
          exact ⟨hb, hlt, (heq b hb).trans h0⟩ }
  hash := h.hash

@[simp] theorem pushEvent_refCnt (e : KVCacheEvent) : (p.pushEvent c e).refCnt = p.refCnt := by
  unfold pushEvent
  split <;> rfl

@[simp] theorem pushEvent_blockHash (e : KVCacheEvent) :
    (p.pushEvent c e).blockHash = p.blockHash := by
  unfold pushEvent
  split <;> rfl

@[simp] theorem pushEvent_freeBlockQueue (e : KVCacheEvent) :
    (p.pushEvent c e).freeBlockQueue = p.freeBlockQueue := by
  unfold pushEvent
  split <;> rfl

@[simp] theorem pushEvent_numFreeBlocks (e : KVCacheEvent) :
    (p.pushEvent c e).numFreeBlocks = p.numFreeBlocks := by
  unfold pushEvent
  split <;> rfl

@[simp] theorem pushEvent_cachedBlockHashToBlock (e : KVCacheEvent) :
    (p.pushEvent c e).cachedBlockHashToBlock = p.cachedBlockHashToBlock := by
  unfold pushEvent
  split <;> rfl

structure SameRefs (p p' : BlockPool) : Prop where
  refCnt : p'.refCnt = p.refCnt
  freeBlockQueue : p'.freeBlockQueue = p.freeBlockQueue
  numFreeBlocks : p'.numFreeBlocks = p.numFreeBlocks

theorem SameRefs.refl : SameRefs p p := ⟨rfl, rfl, rfl⟩

theorem SameRefs.trans {p'' : BlockPool} (h : SameRefs p p') (h' : SameRefs p' p'') :
    SameRefs p p'' :=
  ⟨h'.1.trans h.1, h'.2.trans h.2, h'.3.trans h.3⟩

theorem FreeOk.congr (h : p.FreeOk c own) (hq : p'.freeBlockQueue = p.freeBlockQueue)
    (hn : p'.numFreeBlocks = p.numFreeBlocks) : p'.FreeOk c own where
  nodup := by rw [hq]; exact h.nodup
  mem := by rw [hq]; exact h.mem
  count := by rw [hq, hn]; exact h.count

theorem Inv.of_sameRefs (h : p.Inv c own) (hs : SameRefs p p') (hh : p'.HashOk c) :
    p'.Inv c own where
  refs := by rw [hs.refCnt]; exact h.refs
  valid := h.valid
  free := h.free.congr hs.freeBlockQueue hs.numFreeBlocks
  hash := hh

theorem maybeEvictCachedBlock_sameRefs (b : BlockId) :
    SameRefs p (p.maybeEvictCachedBlock c b) := by
  unfold maybeEvictCachedBlock
  split
  · exact SameRefs.refl
  · split
    · exact ⟨by simp, by simp, by simp⟩
    · exact SameRefs.refl

theorem HashOk.maybeEvict_blockHash (h : p.HashOk c) (b : BlockId) :
    (p.maybeEvictCachedBlock c b).blockHash = Function.update p.blockHash b none := by
  unfold maybeEvictCachedBlock
  split
  · rename_i hb
    rw [← hb, Function.update_eq_self]
  · rename_i key hb
    rw [if_pos ((h.stored b key).mp hb)]
    simp

theorem HashOk.maybeEvict (h : p.HashOk c) (b : BlockId) :
    (p.maybeEvictCachedBlock c b).HashOk c := by
  unfold maybeEvictCachedBlock
  split
  · exact h
  · rename_i key hb
    have hmem := (h.stored b key).mp hb
    rw [if_pos hmem]
    have hcached : ∀ k b', b' ∈ Function.update p.cachedBlockHashToBlock key
        ((p.cachedBlockHashToBlock key).erase b) k ↔ b' ≠ b ∧ p.blockHash b' = some k := by
      intro k b'
      rw [Function.update_apply]
      split
      · rename_i hk
        rw [(h.nodup key).mem_erase_iff, ← h.stored, hk]
      · rename_i hk
        rw [← h.stored]
        refine ⟨fun hb' => ⟨?_, hb'⟩, fun hb' => hb'.2⟩
        rintro rfl
        rw [hb, Option.some_inj] at hb'
        exact hk hb'.symm
    refine ⟨fun b' k => ?_, fun b' k => ?_, fun k => ?_⟩
    · simp only [pushEvent_blockHash, pushEvent_cachedBlockHashToBlock, hcached]
      rw [Function.update_apply]
      split <;> simp_all
    · simp only [pushEvent_blockHash]
      rw [Function.update_apply]
      split
      · simp
      · exact h.valid b' k
    · simp only [pushEvent_cachedBlockHashToBlock]
      rw [Function.update_apply]
      split
      · exact (h.nodup key).erase b
      · exact h.nodup k

theorem Inv.maybeEvict (h : p.Inv c own) (b : BlockId) : (p.maybeEvictCachedBlock c b).Inv c own :=
  h.of_sameRefs (maybeEvictCachedBlock_sameRefs b) (h.hash.maybeEvict b)

theorem Inv.evictBlocks (h : p.Inv c own) {ids : List BlockId}
    (hok : p.evictBlocks c ids = .ok p') : p'.Inv c own := by
  induction ids generalizing p with
  | nil =>
    cases hok
    exact h
  | cons b ids ih =>
    simp only [BlockPool.evictBlocks, Result.bind_eq_ok, Result.ensure_eq_ok] at hok
    obtain ⟨-, -, hok⟩ := hok
    exact ih (h.maybeEvict b) hok

theorem Inv.resetPrefixCache (h : p.Inv c own) : (p.resetPrefixCache c).2.Inv c own := by
  unfold BlockPool.resetPrefixCache
  split
  · exact h
  · refine h.of_sameRefs ⟨by simp, by simp, by simp⟩ ⟨?_, ?_, ?_⟩ <;> simp

theorem popleftN_spec {n : Nat} (h : p.FreeOk c own) (hn : n ≤ p.freeBlockQueue.length) :
    p.popleftN n = .ok (p.freeBlockQueue.take n,
      { p with
        freeBlockQueue := p.freeBlockQueue.drop n
        numFreeBlocks := p.numFreeBlocks - n }) := by
  unfold popleftN
  by_cases h0 : (n : Int) = 0
  · have : n = 0 := by omega
    subst this
    simp
  · have hcount := h.count
    have h1 : p.numFreeBlocks ≥ (n : Int) := by omega
    have h2 : (n : Int) ≤ p.freeBlockQueue.length := by omega
    rw [if_neg h0]
    simp only [Result.bind_eq_ok, Result.ensure_eq_ok, Result.pure_eq_ok, Int.toNat_natCast]
    exact ⟨⟨⟩, h1, ⟨⟩, h2, trivial⟩

theorem FreeOk.popleftN {n : Nat} (h : p.FreeOk c own) (hn : n ≤ p.freeBlockQueue.length) :
    FreeOk c (fun b => own b + (p.freeBlockQueue.take n).count b)
      { p with
        freeBlockQueue := p.freeBlockQueue.drop n
        numFreeBlocks := p.numFreeBlocks - n } where
  nodup := h.nodup.sublist (List.drop_sublist n _)
  mem := by
    intro b
    have hsplit : b ∈ p.freeBlockQueue ↔
        b ∈ p.freeBlockQueue.take n ∨ b ∈ p.freeBlockQueue.drop n := by
      rw [← List.mem_append, List.take_append_drop]
    have hdisj : b ∈ p.freeBlockQueue.take n → b ∉ p.freeBlockQueue.drop n := by
      have hnd := h.nodup
      rw [← List.take_append_drop n p.freeBlockQueue] at hnd
      exact fun ht hd => List.disjoint_of_nodup_append hnd ht hd
    have hzero : (p.freeBlockQueue.take n).count b = 0 ↔ b ∉ p.freeBlockQueue.take n :=
      List.count_eq_zero
    have hmem := h.mem b
    constructor
    · intro hd
      have hfree := hmem.mp (hsplit.mpr (Or.inr hd))
      have := hzero.mpr fun ht => hdisj ht hd
      exact ⟨hfree.1, hfree.2.1, by rw [hfree.2.2, this]⟩
    · rintro ⟨hb, hlt, h0⟩
      have hown : own b = 0 := by omega
      have hcnt : (p.freeBlockQueue.take n).count b = 0 := by omega
      exact (hsplit.mp (hmem.mpr ⟨hb, hlt, hown⟩)).resolve_left (hzero.mp hcnt)
  count := by
    have := h.count
    simp only [List.length_drop]
    omega

structure Claimed (c : PoolConfig) (l : List BlockId) (p p' : BlockPool) : Prop where
  refCnt : ∀ b, p'.refCnt b = p.refCnt b + l.count b
  blockHash : ∀ b, p'.blockHash b =
    if c.enableCaching ∧ b ∈ l then none else p.blockHash b
  freeBlockQueue : p'.freeBlockQueue = p.freeBlockQueue
  numFreeBlocks : p'.numFreeBlocks = p.numFreeBlocks
  hash : p'.HashOk c

theorem claimBlock_spec {b : BlockId} (hh : p.HashOk c) (href : p.refCnt b = 0) :
    ∃ p', p.claimBlock c b = .ok p' ∧ Claimed c [b] p p' := by
  let q := if c.enableCaching then p.maybeEvictCachedBlock c b else p
  have hq : SameRefs p q := by
    simp only [q]
    split
    · exact maybeEvictCachedBlock_sameRefs b
    · exact SameRefs.refl
  have hqh : q.HashOk c := by
    simp only [q]
    split
    · exact hh.maybeEvict b
    · exact hh
  have hqb : ∀ b', q.blockHash b' = if c.enableCaching ∧ b' ∈ [b] then none else p.blockHash b' := by
    intro b'
    simp only [q]
    by_cases hc : c.enableCaching
    · simp only [hc, if_true, hh.maybeEvict_blockHash, Function.update_apply, true_and,
        List.mem_singleton]
    · simp [hc]
  refine ⟨{ q with refCnt := Function.update q.refCnt b (q.refCnt b + 1) }, ?_, ?_⟩
  · have : q.refCnt b = 0 := by rw [hq.refCnt, href]
    unfold claimBlock
    simp only [Result.bind_eq_ok, Result.ensure_eq_ok, Result.pure_eq_ok]
    exact ⟨⟨⟩, this, rfl⟩
  · refine ⟨fun b' => ?_, hqb, hq.freeBlockQueue, hq.numFreeBlocks, ⟨hqh.1, hqh.2, hqh.3⟩⟩
    simp only [Function.update_apply, hq.refCnt, List.count_singleton, beq_iff_eq]
    by_cases hbb : b' = b
    · subst hbb
      simp
    · simp [hbb, Ne.symm hbb]

theorem claimBlocks_spec {l : List BlockId} (hnd : l.Nodup) (hh : p.HashOk c)
    (href : ∀ b ∈ l, p.refCnt b = 0) :
    ∃ p', l.foldlM (claimBlock c) p = .ok p' ∧ Claimed c l p p' := by
  induction l generalizing p with
  | nil => exact ⟨p, rfl, ⟨by simp, by simp, rfl, rfl, hh⟩⟩
  | cons b l ih =>
    obtain ⟨hb, hnd⟩ := List.nodup_cons.mp hnd
    obtain ⟨q, hq, hqc⟩ := claimBlock_spec hh (href b List.mem_cons_self)
    have hq0 : ∀ b' ∈ l, q.refCnt b' = 0 := by
      intro b' hb'
      have hne : b ≠ b' := fun he => hb (he ▸ hb')
      rw [hqc.refCnt, href b' (List.mem_cons_of_mem b hb'), List.count_singleton]
      simp [hne]
    obtain ⟨p', hp', hpc⟩ := ih hnd hqc.hash hq0
    refine ⟨p', ?_, fun b' => ?_, fun b' => ?_, ?_, ?_, hpc.hash⟩
    · rw [List.foldlM_cons, Result.bind_eq_ok]
      exact ⟨q, hq, hp'⟩
    · rw [hpc.refCnt, hqc.refCnt, List.count_cons, List.count_cons, List.count_nil]
      push_cast
      omega
    · rw [hpc.blockHash, hqc.blockHash]
      by_cases hc : c.enableCaching
      · by_cases hbb : b' = b <;> by_cases hbl : b' ∈ l <;> simp [hc, hbb, hbl]
      · simp [hc]
    · rw [hpc.freeBlockQueue, hqc.freeBlockQueue]
    · rw [hpc.numFreeBlocks, hqc.numFreeBlocks]

structure Fresh (c : PoolConfig) (own : BlockId → Nat) (p : BlockPool) (ret : List BlockId)
    (p' : BlockPool) : Prop where
  inv : p'.Inv c fun b => own b + ret.count b
  nodup : ret.Nodup
  unowned : ∀ b ∈ ret, b ≠ nullBlock ∧ b < c.numGpuBlocks ∧ own b = 0
  blockHash : ∀ b, p'.blockHash b = if c.enableCaching ∧ b ∈ ret then none else p.blockHash b
  numFreeBlocks : p'.numFreeBlocks = p.numFreeBlocks - ret.length

theorem Inv.getNewBlocks (h : p.Inv c own) {n : Nat} (hn : (n : Int) ≤ p.numFreeBlocks) :
    ∃ ret p', p.getNewBlocks c n = .ok (ret, p') ∧ ret.length = n ∧ Fresh c own p ret p' := by
  have hlen : n ≤ p.freeBlockQueue.length := by
    have := h.free.count
    omega
  let q : BlockPool :=
    { p with
      freeBlockQueue := p.freeBlockQueue.drop n
      numFreeBlocks := p.numFreeBlocks - n }
  let ret := p.freeBlockQueue.take n
  have hnd : ret.Nodup := h.free.nodup.sublist (List.take_sublist n _)
  have hun : ∀ b ∈ ret, b ≠ nullBlock ∧ b < c.numGpuBlocks ∧ own b = 0 :=
    fun b hb => (h.free.mem b).mp (List.mem_of_mem_take hb)
  obtain ⟨p', hp', hc⟩ := claimBlocks_spec (p := q) hnd ⟨h.hash.1, h.hash.2, h.hash.3⟩
    fun b hb => by
      show p.refCnt b = 0
      rw [h.refs b (hun b hb).1, (hun b hb).2.2]
      rfl
  have hret : ret.length = n := List.length_take_of_le hlen
  refine ⟨ret, p', ?_, hret, ?_⟩
  · unfold BlockPool.getNewBlocks
    rw [if_neg (by omega)]
    simp only [Result.bind_eq_ok]
    exact ⟨_, popleftN_spec h.free hlen, p', hp', rfl⟩
  · refine ⟨⟨?_, ?_, ?_, hc.hash⟩, hnd, hun, hc.blockHash, ?_⟩
    · intro b hb
      rw [hc.refCnt]
      show p.refCnt b + _ = _
      rw [h.refs b hb]
      push_cast
      rfl
    · intro b hb hne
      by_cases hmem : b ∈ ret
      · exact (hun b hmem).2.1
      · rw [List.count_eq_zero.mpr hmem] at hne
        exact h.valid b hb hne
    · exact (h.free.popleftN hlen).congr hc.freeBlockQueue hc.numFreeBlocks
    · rw [hc.numFreeBlocks, hret]

theorem Inv.of_getNewBlocks (h : p.Inv c own) {n : Int} {ret : List BlockId} (hn : 0 ≤ n)
    (hok : p.getNewBlocks c n = .ok (ret, p')) : (ret.length : Int) = n ∧ Fresh c own p ret p' := by
  have hle : (n.toNat : Int) ≤ p.numFreeBlocks := by
    by_contra hgt
    rw [BlockPool.getNewBlocks, if_pos (by omega)] at hok
    cases hok
  obtain ⟨ret₀, p₀, hok₀, hlen, hfresh⟩ := h.getNewBlocks hle
  rw [Int.toNat_of_nonneg hn, hok] at hok₀
  cases hok₀
  exact ⟨by omega, hfresh⟩

structure SameHashes (p p' : BlockPool) : Prop where
  blockHash : p'.blockHash = p.blockHash
  cached : p'.cachedBlockHashToBlock = p.cachedBlockHashToBlock

theorem HashOk.of_sameHashes (h : p.HashOk c) (hs : SameHashes p p') : p'.HashOk c where
  stored := by rw [hs.blockHash, hs.cached]; exact h.stored
  valid := by rw [hs.blockHash]; exact h.valid
  nodup := by rw [hs.cached]; exact h.nodup

theorem Inv.touchBlock (h : p.Inv c own) {b : BlockId} (hb : b ≠ nullBlock → b < c.numGpuBlocks) :
    ∃ p', p.touchBlock b = .ok p' ∧ p'.Inv c (fun x => own x + [b].count x) ∧ SameHashes p p' := by
  have hcount : ∀ x, [b].count x = if b = x then 1 else 0 := by simp [List.count_cons]
  have hrefs : ∀ x ≠ nullBlock, Function.update p.refCnt b (p.refCnt b + 1) x =
      ((own x + [b].count x : Nat) : Int) := by
    intro x hx
    rw [Function.update_apply, hcount]
    by_cases hxb : x = b
    · subst hxb
      simp [h.refs x hx]
    · simp [hxb, Ne.symm hxb, h.refs x hx]
  have hvalid : ∀ x ≠ nullBlock, own x + [b].count x ≠ 0 → x < c.numGpuBlocks := by
    intro x hx hne
    rw [hcount] at hne
    by_cases hxb : b = x
    · subst hxb
      exact hb hx
    · rw [if_neg hxb] at hne
      exact h.valid x hx hne
  unfold BlockPool.touchBlock
  by_cases hfree : p.refCnt b = 0 ∧ b ≠ nullBlock
  · have hown : own b = 0 := by
      have := h.refs b hfree.2
      omega
    have hmem : b ∈ p.freeBlockQueue := (h.free.mem b).mpr ⟨hfree.2, hb hfree.2, hown⟩
    rw [if_pos hfree, if_pos hmem]
    refine ⟨_, rfl, ⟨hrefs, hvalid, ⟨h.free.nodup.erase b, fun x => ?_, ?_⟩, ?_⟩, ⟨rfl, rfl⟩⟩
    · rw [h.free.nodup.mem_erase_iff, h.free.mem, hcount]
      constructor
      · rintro ⟨hne, hx, hlt, h0⟩
        exact ⟨hx, hlt, by rw [h0, if_neg (Ne.symm hne)]⟩
      · rintro ⟨hx, hlt, h0⟩
        have hne : b ≠ x := by
          rintro rfl
          simp at h0
        exact ⟨Ne.symm hne, hx, hlt, by omega⟩
    · have := List.length_erase_of_mem hmem
      have := List.length_pos_of_mem hmem
      have := h.free.count
      simp only
      omega
    · exact h.hash.of_sameHashes ⟨rfl, rfl⟩
  · rw [if_neg hfree]
    refine ⟨_, rfl, ⟨hrefs, hvalid, ⟨h.free.nodup, fun x => ?_, h.free.count⟩, ?_⟩, ⟨rfl, rfl⟩⟩
    · show x ∈ p.freeBlockQueue ↔ _
      rw [h.free.mem, hcount]
      constructor
      · rintro ⟨hx, hlt, h0⟩
        have hne : b ≠ x := by
          rintro rfl
          exact hfree ⟨by rw [h.refs b hx, h0]; rfl, hx⟩
        exact ⟨hx, hlt, by rw [h0, if_neg hne]⟩
      · rintro ⟨hx, hlt, h0⟩
        exact ⟨hx, hlt, by omega⟩
    · exact h.hash.of_sameHashes ⟨rfl, rfl⟩

theorem Inv.touch (h : p.Inv c own) {l : List BlockId}
    (hl : ∀ b ∈ l, b ≠ nullBlock → b < c.numGpuBlocks) :
    ∃ p', p.touch l = .ok p' ∧ p'.Inv c (fun x => own x + l.count x) ∧ SameHashes p p' := by
  unfold BlockPool.touch
  induction l generalizing p own with
  | nil => exact ⟨p, rfl, by simpa using h, rfl, rfl⟩
  | cons b l ih =>
    obtain ⟨q, hq, hqi, hqs⟩ := h.touchBlock (hl b List.mem_cons_self)
    obtain ⟨p', hp', hpi, hps⟩ := ih hqi fun x hx => hl x (List.mem_cons_of_mem b hx)
    refine ⟨p', ?_, hpi.congr fun x _ => ?_, ?_, ?_⟩
    · rw [List.foldlM_cons, Result.bind_eq_ok]
      exact ⟨q, hq, hp'⟩
    · simp only [List.count_cons, List.count_nil]
      omega
    · rw [hps.blockHash, hqs.blockHash]
    · rw [hps.cached, hqs.cached]

theorem foldl_decRef (r : BlockId → Int) (l : List BlockId) (b : BlockId) :
    l.foldl decRef r b = r b - l.count b := by
  induction l generalizing r with
  | nil => simp
  | cons x l ih =>
    rw [List.foldl_cons, ih, decRef, Function.update_apply, List.count_cons]
    by_cases hb : b = x
    · subst hb
      simp
      omega
    · simp [hb, Ne.symm hb]

theorem Inv.freeBlocks (h : p.Inv c own) {own' : BlockId → Nat} {l : List BlockId}
    (hown : ∀ b ≠ nullBlock, own b = own' b + l.count b)
    (hnd : (l.filter (· ≠ nullBlock)).Nodup) : (p.freeBlocks l).Inv c own' := by
  have href : ∀ b ≠ nullBlock, l.foldl decRef p.refCnt b = own' b := by
    intro b hb
    have := hown b hb
    rw [foldl_decRef, h.refs b hb]
    omega
  have hfreed : ∀ b, b ∈ (l.filter fun b => l.foldl decRef p.refCnt b = 0 ∧ b ≠ nullBlock) ↔
      b ∈ l ∧ b ≠ nullBlock ∧ own' b = 0 := by
    intro b
    rw [List.mem_filter, decide_eq_true_eq]
    constructor
    · rintro ⟨hbl, h0, hb⟩
      rw [href b hb] at h0
      exact ⟨hbl, hb, by omega⟩
    · rintro ⟨hbl, hb, h0⟩
      exact ⟨hbl, by rw [href b hb, h0]; rfl, hb⟩
  have hpos : ∀ b, b ∈ l ↔ l.count b ≠ 0 := by
    intro b
    rw [ne_eq, List.count_eq_zero, not_not]
  refine ⟨href, ?_, ⟨?_, fun b => ?_, ?_⟩, ?_⟩
  · intro b hb hne
    apply h.valid b hb
    have := hown b hb
    omega
  · refine List.nodup_append.mpr ⟨h.free.nodup, hnd.sublist ?_, ?_⟩
    · refine List.monotone_filter_right l fun b hb => ?_
      simp only [decide_eq_true_eq] at hb ⊢
      exact hb.2
    · rintro b hb _ hb' rfl
      obtain ⟨hbl, hbn, -⟩ := (hfreed b).mp hb'
      have := ((h.free.mem b).mp hb).2.2
      have := hown b hbn
      have := (hpos b).mp hbl
      omega
  · show b ∈ p.freeBlockQueue ++ _ ↔ _
    rw [List.mem_append, h.free.mem, hfreed]
    constructor
    · rintro (⟨hb, hlt, h0⟩ | ⟨hbl, hb, h0⟩)
      · have := hown b hb
        exact ⟨hb, hlt, by omega⟩
      · have := hown b hb
        have := (hpos b).mp hbl
        exact ⟨hb, h.valid b hb (by omega), h0⟩
    · rintro ⟨hb, hlt, h0⟩
      have := hown b hb
      by_cases hbl : b ∈ l
      · exact Or.inr ⟨hbl, hb, h0⟩
      · have := mt (hpos b).mpr hbl
        exact Or.inl ⟨hb, hlt, by omega⟩
  · have := h.free.count
    simp only [BlockPool.freeBlocks, List.length_append]
    push_cast
    omega
  · exact h.hash.of_sameHashes ⟨rfl, rfl⟩

theorem freeBlocks_sameHashes (l : List BlockId) : SameHashes p (p.freeBlocks l) := ⟨rfl, rfl⟩

structure Stored (c : PoolConfig) (groupId : Nat) (blks : List BlockId) (hashes : List BlockHash)
    (p p' : BlockPool) : Prop where
  sameRefs : SameRefs p p'
  hash : p'.HashOk c
  unhashed : ∀ b ∈ blks, b ≠ nullBlock → p.blockHash b = none
  other : ∀ b, b ∉ blks ∨ b = nullBlock → p'.blockHash b = p.blockHash b
  at_index : ∀ (i : Nat) (b : BlockId), blks[i]? = some b → b ≠ nullBlock →
    ∃ x, hashes[i]? = some x ∧ p'.blockHash b = some (makeBlockHashWithGroupId x groupId)

theorem HashOk.insert (h : p.HashOk c) {b : BlockId} (key : BlockHashWithGroupId)
    (hnone : p.blockHash b = none) (hb : b ≠ nullBlock) (hlt : b < c.numGpuBlocks) :
    (insert { p with blockHash := Function.update p.blockHash b (some key) } key b).HashOk c := by
  have hnot : b ∉ p.cachedBlockHashToBlock key := by
    intro hmem
    rw [← h.stored, hnone] at hmem
    cases hmem
  refine ⟨fun x k => ?_, fun x k => ?_, fun k => ?_⟩
  · simp only [BlockPool.insert, Function.update_apply, if_neg hnot]
    by_cases hk : k = key <;> by_cases hx : x = b
    · simp [hk, hx]
    · simp [hk, hx, h.stored]
    · have : b ∉ p.cachedBlockHashToBlock k := by
        intro hmem
        rw [← h.stored, hnone] at hmem
        cases hmem
      simp [hk, hx, this, Ne.symm hk]
    · simp [hk, hx, h.stored]
  · simp only [BlockPool.insert, Function.update_apply]
    split
    · rename_i hx
      intro _
      rw [hx]
      exact ⟨hb, hlt⟩
    · exact h.valid x k
  · simp only [BlockPool.insert, Function.update_apply, if_neg hnot]
    split
    · refine List.nodup_append.mpr ⟨h.nodup key, List.nodup_singleton b, ?_⟩
      rintro x hx _ hy rfl
      rw [List.mem_singleton.mp hy] at hx
      exact hnot hx
    · exact h.nodup k

theorem HashOk.cacheNewFullBlocks (h : p.HashOk c) {groupId : Nat} {blks : List BlockId}
    {hashes newHashes : List BlockHash} (hlt : ∀ b ∈ blks, b ≠ nullBlock → b < c.numGpuBlocks)
    (hok : cacheNewFullBlocks groupId p blks hashes = .ok (p', newHashes)) :
    Stored c groupId blks hashes p p' := by
  induction blks generalizing p hashes newHashes with
  | nil =>
    cases hok
    exact ⟨SameRefs.refl, h, by simp, fun _ _ => rfl, by simp⟩
  | cons blk blks ih =>
    have hlt' := fun b hb => hlt b (List.mem_cons_of_mem blk hb)
    have htail : ∀ i, hashes.tail[i]? = hashes[i + 1]? := by
      intro i
      cases hashes <;> simp
    unfold BlockPool.cacheNewFullBlocks at hok
    split at hok
    · rename_i hnull
      have hs := ih h hlt' hok
      refine ⟨hs.sameRefs, hs.hash, ?_, ?_, ?_⟩
      · intro b hb hbn
        rcases List.mem_cons.mp hb with rfl | hb
        · exact absurd hnull hbn
        · exact hs.unhashed b hb hbn
      · rintro b (hb | hb)
        · exact hs.other b (Or.inl fun hm => hb (List.mem_cons_of_mem blk hm))
        · exact hs.other b (Or.inr hb)
      · intro i b hib hbn
        cases i with
        | zero =>
          rw [List.getElem?_cons_zero, Option.some_inj] at hib
          exact absurd (hib ▸ hnull) hbn
        | succ i =>
          rw [List.getElem?_cons_succ] at hib
          rw [← htail]
          exact hs.at_index i b hib hbn
    · rename_i hbn
      simp only [Result.bind_eq_ok, Result.ensure_eq_ok, Result.getItem_eq_ok, Result.pure_eq_ok,
        Prod.exists, Prod.mk.injEq] at hok
      obtain ⟨-, hnone, x, hx, q, newHashes', hrec, rfl, -⟩ := hok
      have hins := h.insert (makeBlockHashWithGroupId x groupId) hnone hbn
        (hlt blk List.mem_cons_self hbn)
      have hs := ih hins hlt' hrec
      have hself : ¬ blk ∈ blks := by
        intro hmem
        have := hs.unhashed blk hmem hbn
        simp [BlockPool.insert] at this
      have hblk : q.blockHash blk = some (makeBlockHashWithGroupId x groupId) := by
        rw [hs.other blk (Or.inl hself)]
        simp [BlockPool.insert]
      refine ⟨⟨hs.sameRefs.1, hs.sameRefs.2, hs.sameRefs.3⟩, hs.hash, ?_, ?_, ?_⟩
      · intro b hb hb0
        by_cases hbb : b = blk
        · rw [hbb, hnone]
        · have := hs.unhashed b ((List.mem_cons.mp hb).resolve_left hbb) hb0
          simpa [BlockPool.insert, hbb] using this
      · rintro b hb
        have hbb : b ≠ blk := by
          rintro rfl
          rcases hb with hb | hb
          · exact hb List.mem_cons_self
          · exact hbn hb
        rw [hs.other b (hb.imp (fun hm hm' => hm (List.mem_cons_of_mem blk hm')) id)]
        simp [BlockPool.insert, hbb]
      · intro i b hib hb0
        cases i with
        | zero =>
          rw [List.getElem?_cons_zero, Option.some_inj] at hib
          exact ⟨x, hx, hib ▸ hblk⟩
        | succ i =>
          rw [List.getElem?_cons_succ] at hib
          rw [← htail]
          exact hs.at_index i b hib hb0

theorem Inv.cacheFullBlocks (h : p.Inv c own) {request : Request} {blocks : List BlockId}
    {numCachedBlocks numFullBlocks blockSize groupId : Nat}
    (hlt : ∀ b ∈ blocks, b ≠ nullBlock → b < c.numGpuBlocks)
    (hok : p.cacheFullBlocks c request blocks numCachedBlocks numFullBlocks blockSize groupId =
      .ok p') :
    p'.Inv c own ∧
      Stored c groupId ((blocks.take numFullBlocks).drop numCachedBlocks)
        ((blockHashesFor c blockSize request.blockHashes).drop numCachedBlocks) p p' := by
  have hsub : ∀ b ∈ (blocks.take numFullBlocks).drop numCachedBlocks,
      b ≠ nullBlock → b < c.numGpuBlocks :=
    fun b hb => hlt b (List.mem_of_mem_take (List.mem_of_mem_drop hb))
  have hdone : ∀ {q : BlockPool}, Stored c groupId ((blocks.take numFullBlocks).drop numCachedBlocks)
      ((blockHashesFor c blockSize request.blockHashes).drop numCachedBlocks) p q →
      q.Inv c own := fun hs => h.of_sameRefs hs.sameRefs hs.hash
  unfold BlockPool.cacheFullBlocks at hok
  split at hok
  · rename_i hge
    cases hok
    have hnil : (blocks.take numFullBlocks).drop numCachedBlocks = [] := by
      rw [List.drop_eq_nil_iff, List.length_take]
      omega
    rw [hnil]
    exact ⟨h, SameRefs.refl, h.hash, by simp, fun _ _ => rfl, by simp⟩
  · simp only [Result.bind_eq_ok, Result.ensure_eq_ok, Prod.exists] at hok
    obtain ⟨-, -, -, -, q, newHashes, hloop, hok⟩ := hok
    have hs := h.hash.cacheNewFullBlocks hsub hloop
    split at hok
    · simp only [Result.bind_eq_ok, Result.pure_eq_ok] at hok
      obtain ⟨e, -, rfl⟩ := hok
      have hs' : Stored c groupId ((blocks.take numFullBlocks).drop numCachedBlocks)
          ((blockHashesFor c blockSize request.blockHashes).drop numCachedBlocks) p
          (q.pushEvent c e) :=
        ⟨hs.sameRefs.trans ⟨by simp, by simp, by simp⟩,
          hs.hash.of_sameHashes ⟨by simp, by simp⟩, hs.unhashed, by simpa using hs.other,
          by simpa using hs.at_index⟩
      exact ⟨hdone hs', hs'⟩
    · rw [Result.pure_eq_ok] at hok
      subst hok
      exact ⟨hdone hs, hs⟩

end BlockPool

end Vllm
