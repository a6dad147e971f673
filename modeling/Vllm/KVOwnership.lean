import Vllm.CacheHitLaws
import Vllm.KVCacheManager

namespace Vllm

open BlockPool

namespace SingleTypeKVCacheManager

variable {c : PoolConfig} {rest own : BlockId → Nat} {p p' : BlockPool}
  {m m' : SingleTypeKVCacheManager} {rid : ReqId}

/-- How often the request lists of the manager hold `b`. -/
def held (m : SingleTypeKVCacheManager) (b : BlockId) : Nat :=
  Dict.total (List.count b) m.reqToBlocks

@[simp] theorem blocksOf_setBlocks (m : SingleTypeKVCacheManager) (rid rid' : ReqId)
    (l : List BlockId) :
    (m.setBlocks rid l).blocksOf rid' = if rid = rid' then l else m.blocksOf rid' := by
  simp only [blocksOf, setBlocks, Dict.getD, Dict.get?_set]
  split <;> rfl

theorem count_blocksOf (m : SingleTypeKVCacheManager) (rid : ReqId) (b : BlockId) :
    ((m.reqToBlocks.get? rid).map (List.count b)).getD 0 = (m.blocksOf rid).count b := by
  simp only [blocksOf, Dict.getD]
  cases m.reqToBlocks.get? rid <;> simp

theorem held_setBlocks (m : SingleTypeKVCacheManager) (rid : ReqId) (l : List BlockId)
    (b : BlockId) :
    (m.setBlocks rid l).held b + (m.blocksOf rid).count b = m.held b + l.count b := by
  rw [← count_blocksOf]
  exact Dict.total_set (List.count b) m.reqToBlocks rid l

theorem count_le_held (m : SingleTypeKVCacheManager) (rid : ReqId) (b : BlockId) :
    (m.blocksOf rid).count b ≤ m.held b := by
  have := Dict.total_erase (List.count b) m.reqToBlocks rid
  rw [count_blocksOf] at this
  unfold held
  omega

structure SameStatic (m m' : SingleTypeKVCacheManager) : Prop where
  kvCacheSpec : m'.kvCacheSpec = m.kvCacheSpec
  blockSize : m'.blockSize = m.blockSize
  kvCacheGroupId : m'.kvCacheGroupId = m.kvCacheGroupId

theorem SameStatic.refl : SameStatic m m := ⟨rfl, rfl, rfl⟩

theorem SameStatic.trans {m'' : SingleTypeKVCacheManager} (h : SameStatic m m')
    (h' : SameStatic m' m'') : SameStatic m m'' :=
  ⟨h'.1.trans h.1, h'.2.trans h.2, h'.3.trans h.3⟩

structure Ok (m : SingleTypeKVCacheManager) : Prop where
  distinct : ∀ rid, Distinct (m.blocksOf rid)
  allocated : ∀ spec, m.kvCacheSpec = .mamba spec → spec.mambaCacheMode = .align →
    ∀ rid ∈ m.allocatedBlockReqs, spec.numSpeculativeBlocks ≤ (m.blocksOf rid).length

structure Owned (c : PoolConfig) (rest : BlockId → Nat) (p : BlockPool)
    (m : SingleTypeKVCacheManager) : Prop where
  inv : p.Inv c fun b => m.held b + rest b
  ok : m.Ok

theorem Owned.valid (h : Owned c rest p m) (rid : ReqId) :
    ∀ b ∈ m.blocksOf rid, b ≠ nullBlock → b < c.numGpuBlocks := by
  intro b hb hbn
  apply h.inv.valid b hbn
  have := m.count_le_held rid b
  have := List.count_pos_iff.mpr hb
  omega

theorem Owned.congr (h : Owned c rest p m) (hblocks : m'.reqToBlocks = m.reqToBlocks)
    (hspec : m'.kvCacheSpec = m.kvCacheSpec)
    (halloc : ∀ rid ∈ m'.allocatedBlockReqs, rid ∈ m.allocatedBlockReqs) : Owned c rest p m' := by
  have hof : ∀ rid, m'.blocksOf rid = m.blocksOf rid := by simp [blocksOf, hblocks]
  refine ⟨?_, ⟨fun rid => ?_, fun spec hs ha rid hr => ?_⟩⟩
  · unfold held
    rw [hblocks]
    exact h.inv
  · rw [hof]
    exact h.ok.distinct rid
  · rw [hof]
    exact h.ok.allocated spec (hspec ▸ hs) ha rid (halloc rid hr)

theorem Owned.hashesOnly (h : Owned c rest p m) (hinv : p'.Inv c fun b => m.held b + rest b) :
    Owned c rest p' m :=
  ⟨hinv, h.ok⟩

theorem Owned.replace (h : Owned c rest p m) (own : BlockId → Nat) {l : List BlockId} (hinv : p'.Inv c own)
    (hown : ∀ b ≠ nullBlock,
      own b + (m.blocksOf rid).count b = m.held b + rest b + l.count b)
    (hdist : Distinct l) (hlen : (m.blocksOf rid).length ≤ l.length) :
    Owned c rest p' (m.setBlocks rid l) where
  inv := hinv.congr fun b hb => by
    have := hown b hb
    have := m.held_setBlocks rid l b
    omega
  ok :=
    { distinct := fun rid' => by
        rw [blocksOf_setBlocks]
        split
        · exact hdist
        · exact h.ok.distinct rid'
      allocated := fun spec hs ha rid' hr => by
        rw [blocksOf_setBlocks]
        have := h.ok.allocated spec hs ha rid' hr
        split
        · rename_i heq
          subst heq
          omega
        · exact this }

theorem Owned.setBlocks_self (h : Owned c rest p m) :
    Owned c rest p (m.setBlocks rid (m.blocksOf rid)) :=
  h.replace _ h.inv (fun _ _ => rfl) (h.ok.distinct rid) (Nat.le_refl _)

theorem count_set_null {l : List BlockId} {i : Nat} {x : BlockId} (hx : l[i]? = some x)
    (hxn : x ≠ nullBlock) {b : BlockId} (hb : b ≠ nullBlock) :
    (l.set i nullBlock).count b + [x].count b = l.count b := by
  induction l generalizing i with
  | nil => simp at hx
  | cons y l ih =>
    cases i with
    | zero =>
      rw [List.getElem?_cons_zero, Option.some_inj] at hx
      subst hx
      simp only [List.set_cons_zero, List.count_cons, List.count_nil, beq_iff_eq]
      rw [if_neg (Ne.symm hb)]
      omega
    | succ i =>
      have := ih (by simpa using hx)
      simp only [List.set_cons_succ, List.count_cons] at this ⊢
      omega

theorem nullSkipped_count (n : Nat) (l : List BlockId) {b : BlockId} (hb : b ≠ nullBlock) :
    (nullSkipped n l).2.count b + (nullSkipped n l).1.count b = l.count b := by
  induction n generalizing l with
  | zero => simp [nullSkipped]
  | succ n ih =>
    unfold nullSkipped
    split
    · simp
    · rename_i x hx
      split
      · simp
      · rename_i hxn
        have := ih (l.set n nullBlock)
        have := count_set_null hx hxn hb
        simp only [List.count_cons, List.count_nil] at this ⊢
        omega

theorem nullSkipped_length (n : Nat) (l : List BlockId) :
    (nullSkipped n l).2.length = l.length := by
  induction n generalizing l with
  | zero => rfl
  | succ n ih =>
    unfold nullSkipped
    split
    · rfl
    · split
      · rfl
      · simpa using ih (l.set n nullBlock)

theorem Owned.baseRemoveSkippedBlocks (h : Owned c rest p m) (n : Int) :
    Owned c rest (m.baseRemoveSkippedBlocks p rid n).1 (m.baseRemoveSkippedBlocks p rid n).2 := by
  unfold SingleTypeKVCacheManager.baseRemoveSkippedBlocks
  simp only
  split
  · exact h
  · generalize (min (m.getNumSkippedTokens n / m.blockSize) (m.blocksOf rid).length).toNat = k
    have hcount := fun {b} => nullSkipped_count k (m.blocksOf rid) (b := b)
    have hdist := h.ok.distinct rid
    refine h.replace (fun b => (m.held b + rest b) - (nullSkipped k (m.blocksOf rid)).1.count b)
      (h.inv.freeBlocks ?_ ?_) ?_ ?_ ?_
    · intro b hb
      have := hcount hb
      have := m.count_le_held rid b
      omega
    · rw [← distinct_iff_nodup_filter]
      intro b hb
      have := hcount hb
      have := hdist b hb
      omega
    · intro b hb
      have := hcount hb
      have := m.count_le_held rid b
      omega
    · intro b hb
      have := hcount hb
      have := hdist b hb
      omega
    · rw [nullSkipped_length]

theorem Owned.freeLastState (h : Owned c rest p m) {n : Int}
    (hok : m.freeLastState p rid n = .ok (p', m')) : Owned c rest p' m' ∧ SameStatic m m' := by
  unfold SingleTypeKVCacheManager.freeLastState at hok
  split at hok
  · cases hok
    exact ⟨h, SameStatic.refl⟩
  · split at hok
    · simp only at hok
      split at hok
      · cases hok
      · rename_i j hj
        split at hok
        · rename_i hne
          cases hok
          have hx : (m.blocksOf rid)[j]? = some ((m.blocksOf rid).getD j nullBlock) := by
            rw [List.getD_eq_getElem?_getD] at hne ⊢
            cases hget : (m.blocksOf rid)[j]? with
            | none =>
              rw [hget] at hne
              exact absurd rfl hne
            | some x => rfl
          have hcount := fun {b} => count_set_null hx hne (b := b)
          have hdist := h.ok.distinct rid
          refine ⟨h.replace (fun b => (m.held b + rest b) -
            [(m.blocksOf rid).getD j nullBlock].count b) (h.inv.freeBlocks ?_ ?_) ?_ ?_ ?_,
            ⟨rfl, rfl, rfl⟩⟩
          · intro b hb
            have := hcount hb
            have := m.count_le_held rid b
            omega
          · exact List.Nodup.sublist List.filter_sublist (List.nodup_singleton _)
          · intro b hb
            have := hcount hb
            have := m.count_le_held rid b
            omega
          · intro b hb
            have := hcount hb
            have := hdist b hb
            omega
          · rw [List.length_set]
        · cases hok
          exact ⟨h.setBlocks_self, ⟨rfl, rfl, rfl⟩⟩
    · cases hok
      exact ⟨h, SameStatic.refl⟩

theorem baseRemoveSkippedBlocks_static (n : Int) :
    SameStatic m (m.baseRemoveSkippedBlocks p rid n).2 := by
  unfold SingleTypeKVCacheManager.baseRemoveSkippedBlocks
  simp only
  split
  · exact SameStatic.refl
  · exact ⟨rfl, rfl, rfl⟩

theorem Owned.removeSkippedBlocks (h : Owned c rest p m) {n : Int}
    (hok : m.removeSkippedBlocks p rid n = .ok (p', m')) :
    Owned c rest p' m' ∧ SameStatic m m' := by
  have hbase : ∀ k, Owned c rest (m.baseRemoveSkippedBlocks p rid k).1
      (m.baseRemoveSkippedBlocks p rid k).2 := fun k => h.baseRemoveSkippedBlocks k
  have hstatic : ∀ k, SameStatic m (m.baseRemoveSkippedBlocks p rid k).2 :=
    fun k => baseRemoveSkippedBlocks_static k
  unfold SingleTypeKVCacheManager.removeSkippedBlocks at hok
  split at hok
  · rename_i spec _
    simp only at hok
    have hb := hbase (max 0 (n - spec.numSpeculativeBlocks))
    have hs := hstatic (max 0 (n - spec.numSpeculativeBlocks))
    generalize m.baseRemoveSkippedBlocks p rid (max 0 (n - spec.numSpeculativeBlocks)) = r
      at hok hb hs
    split at hok
    · have hlast := hb.freeLastState hok
      exact ⟨hlast.1, hs.trans hlast.2⟩
    · cases hok
      exact ⟨hb, hs⟩
  · have hb := hbase n
    have hs := hstatic n
    generalize m.baseRemoveSkippedBlocks p rid n = r at hok hb hs
    cases hok
    exact ⟨hb, hs⟩

theorem forgetState_reqToBlocks : (m.forgetState rid).reqToBlocks = m.reqToBlocks := by
  unfold forgetState
  split
  · split <;> rfl
  · rfl

theorem forgetState_static : SameStatic m (m.forgetState rid) := by
  unfold forgetState
  split
  · split <;> exact ⟨rfl, rfl, rfl⟩
  · exact SameStatic.refl

theorem mem_forgetState {spec : MambaSpec} (hs : m.kvCacheSpec = .mamba spec)
    (ha : spec.mambaCacheMode = .align) {rid' : ReqId} :
    rid' ∈ (m.forgetState rid).allocatedBlockReqs ↔
      rid' ∈ m.allocatedBlockReqs ∧ rid' ≠ rid := by
  unfold forgetState
  rw [hs]
  simp [ha]

theorem Owned.free (h : Owned c rest p m) :
    Owned c rest (m.free p rid).1 (m.free p rid).2 ∧ SameStatic m (m.free p rid).2 := by
  unfold SingleTypeKVCacheManager.free
  have hblocks : (m.forgetState rid).reqToBlocks = m.reqToBlocks := forgetState_reqToBlocks
  have hof : (m.forgetState rid).blocksOf rid = m.blocksOf rid := by simp [blocksOf, hblocks]
  have herase := fun b => Dict.total_erase (List.count b) m.reqToBlocks rid
  simp only [count_blocksOf] at herase
  have hstatic : SameStatic m (m.forgetState rid) := forgetState_static
  refine ⟨⟨?_, ⟨fun rid' => ?_, fun spec hs ha rid' hr => ?_⟩⟩,
    ⟨hstatic.1, hstatic.2, hstatic.3⟩⟩
  · simp only [held, hblocks]
    rw [hof]
    refine h.inv.freeBlocks (fun b _ => ?_) ?_
    · rw [List.count_reverse]
      have := herase b
      unfold held
      omega
    · rw [List.filter_reverse, List.nodup_reverse, ← distinct_iff_nodup_filter]
      exact h.ok.distinct rid
  · simp only [blocksOf, Dict.getD, hblocks, Dict.get?_erase]
    split
    · simp [Distinct]
    · exact h.ok.distinct rid'
  · have hs' : m.kvCacheSpec = .mamba spec := hstatic.kvCacheSpec ▸ hs
    obtain ⟨hr, hne⟩ := (mem_forgetState hs' ha).mp hr
    simp only [blocksOf, Dict.getD, hblocks, Dict.get?_erase]
    rw [if_neg (Ne.symm hne)]
    exact h.ok.allocated spec hs' ha rid' hr

theorem Distinct.append_fresh {l ret : List BlockId} (hl : Distinct l) (hret : ret.Nodup)
    (hdisj : ∀ b ∈ ret, l.count b = 0) : Distinct (l ++ ret) := by
  intro b hb
  rw [List.count_append]
  by_cases hmem : b ∈ ret
  · rw [hdisj b hmem]
    have := List.nodup_iff_count_le_one.mp hret b
    omega
  · rw [List.count_eq_zero.mpr hmem]
    exact hl b hb

theorem Owned.extend (h : Owned c rest p m) {l ret : List BlockId}
    (hcount : ∀ b ≠ nullBlock, l.count b = (m.blocksOf rid).count b)
    (hlen : (m.blocksOf rid).length ≤ l.length)
    (hf : Fresh c (fun b => m.held b + rest b) p ret p') :
    Owned c rest p' (m.setBlocks rid (l ++ ret)) := by
  refine h.replace _ hf.inv (fun b hb => ?_) ?_ ?_
  · rw [List.count_append, hcount b hb]
    omega
  · apply Distinct.append_fresh _ hf.nodup
    · intro b hb
      obtain ⟨hbn, -, hzero⟩ := hf.unowned b hb
      have := m.count_le_held rid b
      rw [hcount b hbn]
      omega
    · intro b hb
      rw [hcount b hb]
      exact h.ok.distinct rid b hb
  · rw [List.length_append]
    exact Nat.le_add_right_of_le hlen

theorem Owned.append_fresh (h : Owned c rest p m) {ret : List BlockId}
    (hf : Fresh c (fun b => m.held b + rest b) p ret p') :
    Owned c rest p' (m.setBlocks rid (m.blocksOf rid ++ ret)) :=
  h.extend (fun _ _ => rfl) (Nat.le_refl _) hf

theorem recordNewBlocks_reqToBlocks (l : List BlockId) :
    (m.recordNewBlocks l).reqToBlocks = m.reqToBlocks := by
  unfold recordNewBlocks
  split <;> rfl

theorem recordNewBlocks_static (l : List BlockId) : SameStatic m (m.recordNewBlocks l) := by
  unfold recordNewBlocks
  split
  · exact ⟨rfl, rfl, rfl⟩
  · exact SameStatic.refl

theorem recordNewBlocks_allocated (l : List BlockId) :
    (m.recordNewBlocks l).allocatedBlockReqs = m.allocatedBlockReqs := by
  unfold recordNewBlocks
  split <;> rfl

theorem Owned.recordNewBlocks (h : Owned c rest p m) (l : List BlockId) :
    Owned c rest p (m.recordNewBlocks l) :=
  h.congr (recordNewBlocks_reqToBlocks l) (recordNewBlocks_static l).kvCacheSpec
    fun rid hr => by rwa [recordNewBlocks_allocated] at hr

theorem Owned.baseAllocateNewBlocks (h : Owned c rest p m) {n : Int} {ret : List BlockId}
    (hok : m.baseAllocateNewBlocks c p rid n = .ok (ret, p', m')) :
    Owned c rest p' m' ∧ SameStatic m m' := by
  unfold SingleTypeKVCacheManager.baseAllocateNewBlocks at hok
  simp only at hok
  split at hok
  · cases hok
    exact ⟨h.setBlocks_self, ⟨rfl, rfl, rfl⟩⟩
  · rename_i hpos
    simp only [Result.bind_eq_ok, Prod.exists, Result.pure_eq_ok, Prod.mk.injEq] at hok
    obtain ⟨new, q, hnew, rfl, rfl, rfl⟩ := hok
    have hfresh := (h.inv.of_getNewBlocks (by omega) hnew).2
    exact ⟨(h.append_fresh hfresh).recordNewBlocks _,
      (⟨rfl, rfl, rfl⟩ : SameStatic m (m.setBlocks rid _)).trans (recordNewBlocks_static _)⟩

theorem reuseSpeculativeBlocks_spec {skip : Int} {is : List Int} {l l' : List BlockId}
    (his : ∀ i ∈ is, 0 ≤ i) (hok : reuseSpeculativeBlocks skip is l = .ok l') :
    (∀ b ≠ nullBlock, l'.count b = l.count b) ∧ l.length ≤ l'.length := by
  induction is generalizing l with
  | nil =>
    cases hok
    exact ⟨fun _ _ => rfl, Nat.le_refl _⟩
  | cons i is ih =>
    unfold reuseSpeculativeBlocks at hok
    split at hok
    · split at hok
      · cases hok
      · rename_i j hj
        have hi := his i List.mem_cons_self
        have hj' : j = i.toNat ∧ i.toNat < l.length := by
          unfold Py.index at hj
          rw [if_pos hi] at hj
          split at hj
          · exact ⟨(Option.some_inj.mp hj).symm, by omega⟩
          · cases hj
        obtain ⟨rfl, hlt⟩ := hj'
        have hk : (Py.index (l ++ [l.getD i.toNat nullBlock]).length i).getD 0 = i.toNat := by
          unfold Py.index
          rw [if_pos hi, if_pos (by rw [List.length_append]; omega)]
          rfl
        simp only [hk] at hok
        have hrec := ih (fun k hk => his k (List.mem_cons_of_mem i hk)) hok
        have hx : l[i.toNat]? = some (l.getD i.toNat nullBlock) := by
          rw [List.getD_eq_getElem?_getD, List.getElem?_eq_getElem hlt]
          rfl
        refine ⟨fun b hb => ?_, ?_⟩
        · rw [hrec.1 b hb]
          by_cases hnull : l.getD i.toNat nullBlock = nullBlock
          · rw [hnull] at hx ⊢
            have hsame : (l ++ [nullBlock]).set i.toNat nullBlock = l ++ [nullBlock] := by
              apply List.ext_getElem?
              intro k
              rw [List.getElem?_set]
              split
              · rename_i hik
                subst hik
                rw [if_pos (by rw [List.length_append]; omega),
                  List.getElem?_append_left hlt, hx]
              · rfl
            rw [hsame, List.count_append, List.count_singleton]
            simp [Ne.symm hb]
          · have hx' : (l ++ [l.getD i.toNat nullBlock])[i.toNat]? =
                some (l.getD i.toNat nullBlock) := by
              rw [List.getElem?_append_left hlt, hx]
            have := count_set_null hx' hnull hb
            rw [List.count_append] at this
            omega
        · have := hrec.2
          rw [List.length_set, List.length_append] at this
          omega
    · cases hok
      exact ⟨fun _ _ => rfl, Nat.le_refl _⟩

theorem reuseSpeculativeBlocks_length_le {skip : Int} {is : List Int} {l l' : List BlockId}
    (hok : reuseSpeculativeBlocks skip is l = .ok l') :
    l'.length ≤ l.length + (is.filter (· < skip)).length := by
  induction is generalizing l with
  | nil =>
    cases hok
    simp
  | cons i is ih =>
    unfold reuseSpeculativeBlocks at hok
    split at hok
    · rename_i hlt
      split at hok
      · cases hok
      · have := ih hok
        rw [List.length_set, List.length_append, List.length_singleton] at this
        rw [List.filter_cons_of_pos (by simpa using hlt), List.length_cons]
        omega
    · cases hok
      exact Nat.le_add_right _ _

theorem length_filter_speculative (n s : Nat) (k : Int) :
    (((List.range s).map fun j : Nat => (n : Int) - s + j).filter (· < k)).length ≤
      min s (k - n + s).toNat := by
  rw [List.filter_map, List.length_map]
  apply Nat.le_min.mpr
  constructor
  · simpa using List.length_filter_le ((· < k) ∘ fun j : Nat => (n : Int) - s + j) (List.range s)
  · have hsub : (List.range s).filter ((fun x => decide (x < k)) ∘ fun j : Nat => (n : Int) - s + j) ⊆
        List.range (k - n + s).toNat := by
      intro j hj
      simp only [List.mem_filter, List.mem_range, Function.comp, decide_eq_true_eq] at hj ⊢
      omega
    simpa using (List.subperm_of_subset (List.nodup_range.filter _) hsub).length_le

theorem recordLastState_reqToBlocks (spec : MambaSpec) (n : Nat) :
    (m.recordLastState spec rid n).reqToBlocks = m.reqToBlocks := by
  unfold recordLastState
  split
  · rfl
  · split <;> rfl

theorem recordLastState_static (spec : MambaSpec) (n : Nat) :
    SameStatic m (m.recordLastState spec rid n) := by
  unfold recordLastState
  split
  · exact ⟨rfl, rfl, rfl⟩
  · split <;> exact ⟨rfl, rfl, rfl⟩

theorem recordLastState_allocated (spec : MambaSpec) (n : Nat) :
    (m.recordLastState spec rid n).allocatedBlockReqs = m.allocatedBlockReqs := by
  unfold recordLastState
  split
  · rfl
  · split <;> rfl

theorem Owned.alignAllocateNewBlocks (h : Owned c rest p m) {spec : MambaSpec}
    (hspec : m.kvCacheSpec = .mamba spec) (halign : spec.mambaCacheMode = .align) {n : Int}
    (hn : 0 ≤ n) {ret : List BlockId}
    (hok : m.alignAllocateNewBlocks c p spec rid n = .ok (ret, p', m')) :
    Owned c rest p' m' ∧ SameStatic m m' := by
  unfold SingleTypeKVCacheManager.alignAllocateNewBlocks at hok
  simp only at hok
  split at hok
  · cases hok
    exact ⟨h.setBlocks_self, ⟨rfl, rfl, rfl⟩⟩
  · simp only [Result.bind_eq_ok, Result.ensure_eq_ok, Prod.exists, Result.pure_eq_ok,
      Prod.mk.injEq] at hok
    obtain ⟨-, hreq, l, hl, -, -, new, q, hnew, -, rfl, rfl⟩ := hok
    have hcdiv : 0 ≤ Py.cdiv n m.blockSize := Py.cdiv_nonneg hn (Int.natCast_nonneg _)
    generalize Py.cdiv n m.blockSize = k at hreq hl hnew hcdiv
    generalize hprev : (m.blocksOf rid).length = prev at hreq hl hnew
    -- the list before the new blocks: padded with null blocks, speculative blocks moved
    have hbase : (∀ b ≠ nullBlock, l.count b = (m.blocksOf rid).count b) ∧ prev ≤ l.length ∧
        (l.length : Int) ≤ k + spec.numSpeculativeBlocks := by
      have hpad : ∀ (j : Nat) (b : BlockId), b ≠ nullBlock →
          (m.blocksOf rid ++ List.replicate j nullBlock).count b = (m.blocksOf rid).count b := by
        intro j b hb
        rw [List.count_append, List.count_replicate]
        simp [Ne.symm hb]
      have hpadlen : ∀ j : Nat,
          (m.blocksOf rid ++ List.replicate j nullBlock).length = prev + j := by
        intro j
        rw [List.length_append, List.length_replicate, hprev]
      split at hl
      · rename_i hmem
        have hroom := h.ok.allocated spec hspec halign rid hmem
        have hs := reuseSpeculativeBlocks_spec (fun i hi => by
          simp only [List.mem_map, List.mem_range] at hi
          obtain ⟨j, -, rfl⟩ := hi
          omega) hl
        have hle := reuseSpeculativeBlocks_length_le hl
        have hfilter := length_filter_speculative prev spec.numSpeculativeBlocks
          (k + spec.numSpeculativeBlocks - spec.numSpeculativeBlocks - 1)
        rw [hpadlen] at hle hs
        refine ⟨fun b hb => (hs.1 b hb).trans (hpad _ b hb), by omega, by omega⟩
      · cases hl
        rw [hpadlen]
        exact ⟨hpad _, by omega, by omega⟩
    obtain ⟨hcount, hlen, hle⟩ := hbase
    have hrecord : Owned c rest p (m.recordLastState spec rid prev) :=
      h.congr (recordLastState_reqToBlocks spec prev) (recordLastState_static spec prev).kvCacheSpec
        fun rid' hr => by rwa [recordLastState_allocated] at hr
    have hof : (m.recordLastState spec rid prev).blocksOf rid = m.blocksOf rid := by
      simp [blocksOf, recordLastState_reqToBlocks]
    obtain ⟨hnewlen, hfresh⟩ := hrecord.inv.of_getNewBlocks (by omega) hnew
    have hext := hrecord.extend (by rwa [hof]) (by rw [hof, hprev]; exact hlen) hfresh
    refine ⟨⟨hext.inv, ⟨hext.ok.distinct, fun spec' hs' ha' rid' hr => ?_⟩⟩,
      (recordLastState_static spec prev).trans ⟨rfl, rfl, rfl⟩⟩
    · have hsame : spec' = spec := by
        have := (recordLastState_static (m := m) spec prev).kvCacheSpec.symm.trans hs'
        rw [hspec] at this
        cases this
        rfl
      subst hsame
      rcases List.mem_insert_iff.mp hr with rfl | hr
      · show spec'.numSpeculativeBlocks ≤ ((SingleTypeKVCacheManager.setBlocks _ _ _).blocksOf _).length
        rw [blocksOf_setBlocks, if_pos rfl, List.length_append]
        omega
      · exact hext.ok.allocated spec' hs' ha' rid' hr

theorem Owned.allocateNewBlocks (h : Owned c rest p m) {n main : Int} (hmain : 0 ≤ main)
    {ret : List BlockId} (hok : m.allocateNewBlocks c p rid n main = .ok (ret, p', m')) :
    Owned c rest p' m' ∧ SameStatic m m' := by
  unfold SingleTypeKVCacheManager.allocateNewBlocks at hok
  split at hok
  · rename_i spec hspec
    split at hok
    · exact h.baseAllocateNewBlocks hok
    · rename_i halign
      exact h.alignAllocateNewBlocks hspec (not_not.mp halign) hmain hok
  · exact h.baseAllocateNewBlocks hok

theorem Owned.allocateExternal (h : Owned c rest p m) {total ext : Int}
    (hlen : 0 < ext → ((m.blocksOf rid).length : Int) ≤ Py.cdiv total m.blockSize)
    (hok : m.allocateExternal c p rid total ext = .ok (p', m')) :
    Owned c rest p' m' ∧ SameStatic m m' := by
  unfold SingleTypeKVCacheManager.allocateExternal at hok
  split at hok
  · rename_i hext
    simp only [Result.bind_eq_ok, Prod.exists, Result.pure_eq_ok, Prod.mk.injEq] at hok
    obtain ⟨new, q, hnew, rfl, rfl⟩ := hok
    have hle := hlen hext
    have hfresh := (h.inv.of_getNewBlocks (by omega) hnew).2
    exact ⟨(h.append_fresh hfresh).recordNewBlocks _,
      (⟨rfl, rfl, rfl⟩ : SameStatic m (m.setBlocks rid _)).trans (recordNewBlocks_static _)⟩
  · cases hok
    exact ⟨h, SameStatic.refl⟩

/-- Hits that fit into the computed tokens, as far as blocks for external tokens follow them. -/
def HitsFit (m : SingleTypeKVCacheManager) (hits : List BlockId) (total ext : Int) : Prop :=
  0 < ext → (hits.length : Int) ≤ Py.cdiv total m.blockSize

theorem touchComputedBlocks_spec {own : BlockId → Nat} (h : p.Inv c own) {hits : List BlockId}
    (hvalid : ∀ b ∈ hits, b ≠ nullBlock → b < c.numGpuBlocks)
    (hok : touchComputedBlocks c p hits = .ok p') :
    p'.Inv c (fun b => own b + hits.count b) ∧ SameHashes p p' := by
  unfold touchComputedBlocks at hok
  split at hok
  · obtain ⟨q, hq, hinv, hsame⟩ := h.touch hvalid
    rw [hq] at hok
    cases hok
    exact ⟨hinv, hsame⟩
  · simp only [Result.bind_eq_ok, Result.ensure_eq_ok, Result.pure_eq_ok] at hok
    obtain ⟨-, rfl, rfl⟩ := hok
    exact ⟨h.congr (by simp), rfl, rfl⟩

theorem Owned.allocateNewComputedBlocks (h : Owned c rest p m) {hits : List BlockId}
    {local_ ext : Int} (hhits : HitOk c hits) (hfit : m.HitsFit hits (local_ + ext) ext)
    (hok : m.allocateNewComputedBlocks c p rid hits local_ ext = .ok (p', m')) :
    Owned c rest p' m' ∧ SameStatic m m' := by
  unfold SingleTypeKVCacheManager.allocateNewComputedBlocks at hok
  split at hok
  · simp only [Result.bind_eq_ok, Result.pure_eq_ok, Prod.mk.injEq] at hok
    obtain ⟨-, -, rfl, rfl⟩ := hok
    exact ⟨h, SameStatic.refl⟩
  split at hok
  · simp only [Result.bind_eq_ok, Result.pure_eq_ok, Prod.mk.injEq] at hok
    obtain ⟨-, -, rfl, rfl⟩ := hok
    exact ⟨h, SameStatic.refl⟩
  simp only [Result.bind_eq_ok, Result.ensure_eq_ok] at hok
  obtain ⟨-, hempty, q, hq, hok⟩ := hok
  generalize hskip : m.getNumSkippedTokens (local_ + ext) = skipped at hq hok
  -- whether or not blocks are skipped, the list is null blocks and then the other hits
  have hdrop : (if skipped / m.blockSize > 0 then hits.drop (skipped / m.blockSize).toNat
      else hits) = hits.drop (skipped / m.blockSize).toNat := by
    split
    · rfl
    · rename_i hle
      rw [Int.toNat_of_nonpos (by omega), List.drop_zero]
  rw [hdrop] at hq hok
  have hsub := hhits.sublist (List.drop_sublist (skipped / m.blockSize).toNat hits)
  obtain ⟨hinv, -⟩ := touchComputedBlocks_spec h.inv hsub.valid hq
  generalize hk : (skipped / (m.blockSize : Int)).toNat = k at hok hsub hinv
  have hnull : ∀ b ≠ nullBlock, (List.replicate k nullBlock ++ hits.drop k).count b =
      (hits.drop k).count b := by
    intro b hb
    rw [List.count_append, List.count_replicate]
    simp [Ne.symm hb]
  have hset : Owned c rest q (m.setBlocks rid (List.replicate k nullBlock ++ hits.drop k)) := by
    refine h.replace _ hinv (fun b hb => ?_) (fun b hb => ?_) ?_
    · rw [hnull b hb, List.length_eq_zero_iff.mp hempty, List.count_nil]
      omega
    · rw [hnull b hb]
      exact hsub.distinct b hb
    · rw [hempty]
      exact Nat.zero_le _
  have hcached : Owned c rest q { m.setBlocks rid (List.replicate k nullBlock ++ hits.drop k) with
      numCachedBlock := m.numCachedBlock.set rid
        (List.replicate k nullBlock ++ hits.drop k).length } :=
    hset.congr rfl rfl fun _ hr => hr
  have hres := hcached.allocateExternal (fun hext => by
    show (((m.setBlocks rid _).blocksOf rid).length : Int) ≤ Py.cdiv (local_ + ext) m.blockSize
    rw [blocksOf_setBlocks, if_pos rfl, List.length_append, List.length_replicate,
      List.length_drop]
    have hdiv := Py.ediv_le_cdiv (local_ + ext) (Int.natCast_nonneg m.blockSize)
    split at hext
    · rename_i hskipped
      have hpos : 0 < (m.blockSize : Int) := by
        by_contra hzero
        rw [show (m.blockSize : Int) = 0 by omega, Int.ediv_zero] at hskipped
        exact Int.lt_irrefl 0 hskipped
      have hlt : skipped < local_ + ext := by omega
      have := hfit (by omega)
      have := Int.ediv_le_ediv hpos (Int.le_of_lt hlt)
      omega
    · have := hfit hext
      omega) hok
  exact ⟨hres.1, hres.2.kvCacheSpec, hres.2.blockSize, hres.2.kvCacheGroupId⟩

theorem Owned.baseCacheBlocks (h : Owned c rest p m) {request : Request} {n : Int}
    (hok : m.baseCacheBlocks c p request n = .ok (p', m')) :
    Owned c rest p' m' ∧ SameStatic m m' := by
  unfold SingleTypeKVCacheManager.baseCacheBlocks at hok
  simp only at hok
  split at hok
  · cases hok
    exact ⟨h, SameStatic.refl⟩
  · simp only [Result.bind_eq_ok, Result.pure_eq_ok, Prod.mk.injEq] at hok
    obtain ⟨q, hq, rfl, rfl⟩ := hok
    have hinv := (h.inv.cacheFullBlocks (h.valid request.requestId) hq).1
    exact ⟨((h.hashesOnly hinv).setBlocks_self).congr rfl rfl
      fun _ hr => hr, ⟨rfl, rfl, rfl⟩⟩

theorem Owned.cacheBlocks (h : Owned c rest p m) {request : Request} {n : Int}
    (hok : m.cacheBlocks c p request n = .ok (p', m')) :
    Owned c rest p' m' ∧ SameStatic m m' := by
  unfold SingleTypeKVCacheManager.cacheBlocks at hok
  split at hok
  · cases hok
  · simp only [Result.bind_eq_ok, Prod.exists] at hok
    obtain ⟨q, m₁, hbase, hok⟩ := hok
    obtain ⟨hown, hstatic⟩ := h.baseCacheBlocks hbase
    split at hok
    · simp only [Result.bind_eq_ok, Result.pure_eq_ok, Prod.mk.injEq] at hok
      obtain ⟨keys, -, rfl, rfl⟩ := hok
      exact ⟨hown.congr rfl rfl fun _ hr => hr, hstatic.trans ⟨rfl, rfl, rfl⟩⟩
    · simp only [Result.pure_eq_ok, Prod.mk.injEq] at hok
      obtain ⟨rfl, rfl⟩ := hok
      exact ⟨hown, hstatic⟩
  · exact h.baseCacheBlocks hok

theorem Owned.getNumBlocksToAllocate (h : Owned c rest p m) {n total main k : Int}
    {hits : List BlockId}
    (hok : m.getNumBlocksToAllocate c p rid n hits total main = .ok (k, m')) :
    Owned c rest p m' ∧ SameStatic m m' := by
  unfold SingleTypeKVCacheManager.getNumBlocksToAllocate at hok
  split at hok
  · split at hok
    · cases hok
      exact ⟨h, SameStatic.refl⟩
    split at hok
    · simp only [Result.bind_eq_ok, Result.pure_eq_ok, Prod.mk.injEq] at hok
      obtain ⟨_, -, -, rfl⟩ := hok
      exact ⟨h, SameStatic.refl⟩
    · cases hok
      exact ⟨h.setBlocks_self, ⟨rfl, rfl, rfl⟩⟩
  · simp only [Result.bind_eq_ok, Result.pure_eq_ok, Prod.mk.injEq] at hok
    obtain ⟨_, -, -, rfl⟩ := hok
    exact ⟨h, SameStatic.refl⟩

end SingleTypeKVCacheManager

end Vllm
