import Vllm.KVOwnership

namespace Vllm

open BlockPool

namespace SingleTypeKVCacheManager

variable {c : PoolConfig} {rest : BlockId → Nat} {p p' : BlockPool} {m m' : SingleTypeKVCacheManager}
variable {spec : MambaSpec} {rid : ReqId} {last : Option Int} {l before run hits : List BlockId} {s q : Nat}

/-! Lists whose only non-null block is an older state. -/

def OnlyAt (last : Option Int) (l : List BlockId) : Prop :=
  ∀ (i : Nat) (b : BlockId), l[i]? = some b → b ≠ nullBlock → last = some (i : Int)

theorem OnlyAt.of_sub {l' : List BlockId} (h : OnlyAt last l)
    (hsub : ∀ (i : Nat) (b : BlockId), l'[i]? = some b → b ≠ nullBlock → l[i]? = some b) : OnlyAt last l' :=
  fun i b hi hb => h i b (hsub i b hi hb) hb

theorem of_set_null {i j : Nat} {b : BlockId} (h : (l.set j nullBlock)[i]? = some b) (hb : b ≠ nullBlock) :
    i ≠ j ∧ l[i]? = some b := by
  rw [List.getElem?_set] at h
  split at h
  · split at h
    · cases h
      exact absurd rfl hb
    · cases h
  · rename_i hne
    exact ⟨Ne.symm hne, h⟩

theorem OnlyAt.of_null {j : Nat} (h : OnlyAt (some (j : Int)) l) (hj : l.getD j nullBlock = nullBlock) :
    OnlyAt none l := by
  intro i b hi hb
  have := h i b hi hb
  simp only [Option.some.injEq, Int.natCast_inj] at this
  subst this
  rw [List.getD_eq_getElem?_getD, hi] at hj
  exact absurd hj hb

theorem onlyAt_nil : OnlyAt last [] := by
  intro i b hi
  simp at hi

theorem onlyAt_replicate (n : Nat) : OnlyAt last (List.replicate n nullBlock) := by
  intro i b hi hb
  exact absurd (List.eq_of_mem_replicate (List.mem_of_getElem? hi)) hb

theorem OnlyAt.push (h : OnlyAt none l) (b : BlockId) (n : Nat) :
    OnlyAt (some (l.length : Int)) (l ++ (b :: List.replicate n nullBlock)) := by
  intro i x hi hx
  rw [List.getElem?_append] at hi
  split at hi
  · cases h i x hi hx
  · rename_i hge
    cases hk : i - l.length with
    | zero =>
      congr 1
      omega
    | succ k =>
      rw [hk, List.getElem?_cons_succ] at hi
      exact absurd (List.eq_of_mem_replicate (List.mem_of_getElem? hi)) hx

theorem length_filter_le_one (h : OnlyAt last l) : (l.filter (· ≠ nullBlock)).length ≤ 1 := by
  induction l generalizing last with
  | nil => simp
  | cons x l ih =>
    by_cases hx : x = nullBlock
    · rw [List.filter_cons_of_neg (by simpa using hx)]
      have htail : OnlyAt (last.map (· - 1)) l := by
        intro i b hi hb
        rw [h (i + 1) b (by simpa using hi) hb]
        simp
      exact ih htail
    · have hnone : l.filter (· ≠ nullBlock) = [] := by
        rw [List.filter_eq_nil_iff]
        intro b hb
        obtain ⟨i, hi⟩ := List.mem_iff_getElem?.mp hb
        by_contra hne
        have h0 := h 0 x rfl hx
        have h1 := h (i + 1) b (by simpa using hi) (by simpa using hne)
        rw [h0] at h1
        simp only [Option.some.injEq, Int.natCast_inj] at h1
        omega
      rw [List.filter_cons_of_pos (by simpa using hx), hnone]
      simp

theorem of_nullSkipped {n i : Nat} {b : BlockId} (h : (nullSkipped n l).2[i]? = some b) (hb : b ≠ nullBlock) :
    l[i]? = some b := by
  induction n generalizing l with
  | zero => exact h
  | succ n ih =>
    unfold nullSkipped at h
    split at h
    · exact h
    · split at h
      · exact h
      · exact (of_set_null (ih h) hb).2

theorem nullSkipped_append {n : Nat} (hn : n ≤ before.length) (run : List BlockId) :
    nullSkipped n (before ++ run) = ((nullSkipped n before).1, (nullSkipped n before).2 ++ run) := by
  induction n generalizing before with
  | zero => rfl
  | succ n ih =>
    have hget : (before ++ run)[n]? = before[n]? := List.getElem?_append_left (by omega)
    unfold nullSkipped
    rw [hget]
    cases hb : before[n]? with
    | none => rfl
    | some b =>
      dsimp only
      split
      · rfl
      · rw [List.set_append_left _ _ (by omega), ih (by rw [List.length_set]; omega)]

/-- The last `s + 1` of the blocks are non-null, the first of them is block `q - 1`, and before them
there is at most the block at `last`. -/
def StateList (s q : Nat) (last : Option Int) (l : List BlockId) : Prop :=
  ∃ before run, l = before ++ run ∧ before.length + 1 = q ∧ run.length = s + 1 ∧ nullBlock ∉ run ∧
    OnlyAt last before

theorem StateList.length (h : StateList s q last l) : l.length = q + s := by
  obtain ⟨before, run, rfl, hq, hs, -, -⟩ := h
  rw [List.length_append]
  omega

theorem StateList.pos (h : StateList s q last l) : 0 < q := by
  obtain ⟨before, run, -, hq, -⟩ := h
  omega

def lastBlocks (s : Nat) (l : List BlockId) : List BlockId := l.drop (l.length - (s + 1))

theorem lastBlocks_append (before : List BlockId) (h : run.length = s + 1) :
    lastBlocks s (before ++ run) = run := by
  rw [lastBlocks, List.length_append, h, Nat.add_sub_cancel, List.drop_left]

theorem StateList.nonNull (h : StateList s q last l) : (l.filter (· ≠ nullBlock)).length ≤ 2 + s := by
  obtain ⟨before, run, rfl, -, hs, -, honly⟩ := h
  have hrun := List.length_filter_le (· ≠ nullBlock) run
  have hbefore := length_filter_le_one honly
  rw [List.filter_append, List.length_append]
  omega

theorem StateList.lastBlocks (h : StateList s q last l) (hd : Distinct l) :
    (lastBlocks s l).length = s + 1 ∧ (lastBlocks s l).Nodup ∧ nullBlock ∉ lastBlocks s l := by
  obtain ⟨before, run, rfl, -, hs, hnull, -⟩ := h
  rw [lastBlocks_append before hs]
  refine ⟨hs, ?_, hnull⟩
  have hsub := (distinct_iff_nodup_filter.mp hd).sublist ((List.sublist_append_right before run).filter _)
  have hall : run.filter (· ≠ nullBlock) = run :=
    List.filter_eq_self.mpr fun b hb => by
      have : b ≠ nullBlock := fun h => hnull (h ▸ hb)
      simpa using this
  rwa [hall] at hsub

theorem reuseSpeculativeBlocks_append (skip : Int) (before run after : List BlockId) :
    reuseSpeculativeBlocks skip ((List.range run.length).map fun k : Nat => (before.length : Int) + k)
        (before ++ (run ++ after)) =
      .ok (before ++ (List.replicate (min run.length (skip - before.length).toNat) nullBlock ++
        (run.drop (skip - before.length).toNat ++
          (after ++ run.take (skip - before.length).toNat)))) := by
  induction run generalizing before after with
  | nil => simp [reuseSpeculativeBlocks]
  | cons x run ih =>
    rw [List.length_cons, List.range_succ_eq_map, List.map_cons, List.map_map]
    unfold reuseSpeculativeBlocks
    by_cases hlt : ((before.length : Int) + (0 : Nat)) < skip
    · rw [if_pos hlt]
      have hidx : ∀ n : Nat, before.length < n →
          Py.index n ((before.length : Int) + (0 : Nat)) = some before.length := by
        intro n hn
        unfold Py.index
        rw [if_pos (by omega), if_pos (by omega)]
        congr 1
      rw [hidx _ (by simp)]
      dsimp only
      rw [hidx _ (by simp), Option.getD_some]
      have hget : (before ++ (x :: run ++ after)).getD before.length nullBlock = x := by
        rw [List.getD_eq_getElem?_getD, List.getElem?_append_right (Nat.le_refl _)]
        simp
      have hset : ((before ++ (x :: run ++ after)) ++ [x]).set before.length nullBlock =
          (before ++ [nullBlock]) ++ (run ++ (after ++ [x])) := by
        rw [List.append_assoc, List.set_append_right _ _ (Nat.le_refl _)]
        simp
      have hrange : (List.range run.length).map
            ((fun k : Nat => (before.length : Int) + k) ∘ Nat.succ) =
          (List.range run.length).map fun k : Nat => ((before ++ [nullBlock]).length : Int) + k := by
        apply List.map_congr_left
        intro k _
        simp only [Function.comp, List.length_append, List.length_singleton]
        omega
      have hskip : (skip - before.length).toNat =
          (skip - (before ++ [nullBlock]).length).toNat + 1 := by
        rw [List.length_append, List.length_singleton]
        omega
      rw [hget, hset, hrange, ih, hskip]
      simp [List.replicate_succ, Nat.add_min_add_right]
    · rw [if_neg hlt, Int.toNat_of_nonpos (by omega)]
      simp

def grown (m : SingleTypeKVCacheManager) (spec : MambaSpec) (rid : ReqId) (l : List BlockId) :
    SingleTypeKVCacheManager :=
  let m := (m.recordLastState spec rid (m.blocksOf rid).length).setBlocks rid l
  { m with allocatedBlockReqs := m.allocatedBlockReqs.insert rid }

@[simp] theorem grown_blocksOf (m : SingleTypeKVCacheManager) (l : List BlockId) :
    (m.grown spec rid l).blocksOf rid = l := by
  show ((m.recordLastState spec rid _).setBlocks rid l).blocksOf rid = l
  rw [blocksOf_setBlocks, if_pos rfl]

theorem mem_grown_allocated (m : SingleTypeKVCacheManager) (l : List BlockId) :
    rid ∈ (m.grown spec rid l).allocatedBlockReqs :=
  List.mem_insert_self

theorem grown_last (m : SingleTypeKVCacheManager) (l : List BlockId) (hpos : 0 < (m.blocksOf rid).length) :
    (m.grown spec rid l).lastStateBlockIdx.get? rid =
      some (if rid ∈ m.allocatedBlockReqs then
        ((m.blocksOf rid).length : Int) - 1 - spec.numSpeculativeBlocks
      else ((m.blocksOf rid).length : Int) - 1) := by
  show (m.recordLastState spec rid (m.blocksOf rid).length).lastStateBlockIdx.get? rid = _
  unfold recordLastState
  split
  · simp
  · simp

theorem alignAllocateNewBlocks_eq {n k : Int} (l' : List BlockId)
    (hk : Py.cdiv n m.blockSize = k)
    (hlt : ((m.blocksOf rid).length : Int) < k + spec.numSpeculativeBlocks)
    (hl' : (if rid ∈ m.allocatedBlockReqs then
        reuseSpeculativeBlocks (k - 1)
          ((List.range spec.numSpeculativeBlocks).map fun j : Nat =>
            ((m.blocksOf rid).length : Int) - spec.numSpeculativeBlocks + j)
          (m.blocksOf rid ++ List.replicate (k - 1 - (m.blocksOf rid).length).toNat nullBlock)
      else .ok (m.blocksOf rid ++ List.replicate (k - 1 - (m.blocksOf rid).length).toNat nullBlock)) =
        .ok l')
    (hnum : k + spec.numSpeculativeBlocks - l'.length ≤
      (if rid ∈ m.allocatedBlockReqs then 1 else spec.numSpeculativeBlocks + 1 : Nat)) :
    m.alignAllocateNewBlocks c p spec rid n =
      p.getNewBlocks c (k + spec.numSpeculativeBlocks - l'.length) >>= fun r =>
        .ok ((l' ++ r.1).drop (m.blocksOf rid).length, r.2, m.grown spec rid (l' ++ r.1)) := by
  subst hk
  have hskip : Py.cdiv n m.blockSize + spec.numSpeculativeBlocks - spec.numSpeculativeBlocks - 1 =
      Py.cdiv n m.blockSize - 1 := by
    omega
  unfold alignAllocateNewBlocks
  simp only [hskip]
  rw [if_neg (by omega), Result.ensure, if_pos hlt, Result.ok_bind]
  simp only [hl']
  rw [Result.ok_bind, Result.ensure, if_pos hnum, Result.ok_bind]
  rfl

/-! The states of a request between two allocations. -/

structure IsAlign (m : SingleTypeKVCacheManager) (spec : MambaSpec) : Prop where
  kvCacheSpec : m.kvCacheSpec = .mamba spec
  mode : spec.mambaCacheMode = .align
  pos : 0 < m.blockSize

structure Running (m : SingleTypeKVCacheManager) (spec : MambaSpec) (rid : ReqId) (q : Nat) : Prop where
  allocated : rid ∈ m.allocatedBlockReqs
  blocks : StateList spec.numSpeculativeBlocks q (m.lastStateBlockIdx.get? rid) (m.blocksOf rid)
  last : ∀ j, m.lastStateBlockIdx.get? rid = some j → 0 ≤ j ∧ j + 1 < q

structure Unstarted (m : SingleTypeKVCacheManager) (rid : ReqId) (hits : List BlockId) : Prop where
  allocated : rid ∉ m.allocatedBlockReqs
  blocks : m.blocksOf rid = hits
  last : m.lastStateBlockIdx.get? rid = none

structure SameRequest (rid : ReqId) (m m' : SingleTypeKVCacheManager) : Prop where
  static : SameStatic m m'
  allocated : rid ∈ m'.allocatedBlockReqs ↔ rid ∈ m.allocatedBlockReqs
  blocks : m'.blocksOf rid = m.blocksOf rid
  last : m'.lastStateBlockIdx.get? rid = m.lastStateBlockIdx.get? rid

theorem IsAlign.congr (h : m.IsAlign spec) (hsame : SameStatic m m') : m'.IsAlign spec :=
  ⟨hsame.kvCacheSpec.trans h.kvCacheSpec, h.mode, hsame.blockSize ▸ h.pos⟩

theorem SameRequest.refl : SameRequest rid m m := ⟨.refl, Iff.rfl, rfl, rfl⟩

theorem SameRequest.trans {m'' : SingleTypeKVCacheManager} (h : SameRequest rid m m')
    (h' : SameRequest rid m' m'') : SameRequest rid m m'' :=
  ⟨h.static.trans h'.static, h'.allocated.trans h.allocated, h'.blocks.trans h.blocks, h'.last.trans h.last⟩

theorem Running.congr (h : m.Running spec rid q) (hsame : SameRequest rid m m') : m'.Running spec rid q where
  allocated := hsame.allocated.mpr h.allocated
  blocks := by
    rw [hsame.last, hsame.blocks]
    exact h.blocks
  last := by
    rw [hsame.last]
    exact h.last

theorem Unstarted.congr (h : m.Unstarted rid hits) (hsame : SameRequest rid m m') :
    m'.Unstarted rid hits :=
  ⟨fun hr => h.allocated (hsame.allocated.mp hr), hsame.blocks.trans h.blocks, hsame.last.trans h.last⟩

theorem SameRequest.setBlocks {rid' : ReqId} {blocks : List BlockId}
    (h : rid = rid' → blocks = m.blocksOf rid) : SameRequest rid m (m.setBlocks rid' blocks) where
  static := ⟨rfl, rfl, rfl⟩
  allocated := Iff.rfl
  blocks := by
    rw [blocksOf_setBlocks]
    split
    · rename_i heq
      exact h heq.symm
    · rfl
  last := rfl

def Released (m : SingleTypeKVCacheManager) (spec : MambaSpec) (rid : ReqId) (totalComputedTokens : Int) :
    Prop :=
  ∀ j, m.lastStateBlockIdx.get? rid = some j → (m.blocksOf rid).getD j.toNat nullBlock = nullBlock ∨
    j < Py.cdiv (max 0 (totalComputedTokens - spec.numSpeculativeBlocks)) m.blockSize - 1

def Cleared (q : Nat) (l l' : List BlockId) : Prop :=
  ∃ before before' run, l = before ++ run ∧ l' = before' ++ run ∧ before.length + 1 = q ∧
    before'.length = before.length ∧
    ∀ (i : Nat) (b : BlockId), before'[i]? = some b → b ≠ nullBlock → before[i]? = some b

theorem StateList.cleared {l' : List BlockId} (h : StateList s q last l) (hc : Cleared q l l') :
    StateList s q last l' := by
  obtain ⟨before, run, rfl, hq, hs, hnull, honly⟩ := h
  obtain ⟨before₁, before', run₁, heq, rfl, hq₁, hlen, hsub⟩ := hc
  obtain ⟨rfl, rfl⟩ := List.append_inj heq (by omega)
  exact ⟨before', run, rfl, by omega, hs, hnull, honly.of_sub hsub⟩

theorem Cleared.getD {l' : List BlockId} (hc : Cleared q l l') {j : Nat}
    (hj : l.getD j nullBlock = nullBlock) : l'.getD j nullBlock = nullBlock := by
  obtain ⟨before, before', run, rfl, rfl, -, hlen, hsub⟩ := hc
  by_contra hne
  rw [List.getD_eq_getElem?_getD] at hj hne
  cases hb : (before' ++ run)[j]? with
  | none =>
    rw [hb] at hne
    exact hne rfl
  | some b =>
    rw [hb, Option.getD_some] at hne
    have hold : (before ++ run)[j]? = some b := by
      rw [List.getElem?_append] at hb ⊢
      rw [← hlen]
      split at hb
      · rename_i hlt
        rw [if_pos hlt]
        exact hsub j b hb hne
      · rename_i hge
        rw [if_neg hge]
        exact hb
    rw [hold] at hj
    exact hne hj

theorem Cleared.lastBlocks {l' : List BlockId} (hc : Cleared q l l') (hl : l.length = q + s) :
    lastBlocks s l' = lastBlocks s l := by
  obtain ⟨before, before', run, rfl, rfl, hq, hlen, -⟩ := hc
  have hrun : run.length = s + 1 := by
    rw [List.length_append] at hl
    omega
  rw [lastBlocks_append before' hrun, lastBlocks_append before hrun]

theorem Cleared.trans {l' l'' : List BlockId} (h : Cleared q l l') (h' : Cleared q l' l'') :
    Cleared q l l'' := by
  obtain ⟨before, before', run, rfl, rfl, hq, hlen, hsub⟩ := h
  obtain ⟨before₁, before'', run₁, heq, rfl, hq₁, hlen₁, hsub₁⟩ := h'
  obtain ⟨rfl, rfl⟩ := List.append_inj heq (by omega)
  exact ⟨before, before'', run, rfl, rfl, hq, hlen₁.trans hlen,
    fun i b hi hb => hsub i b (hsub₁ i b hi hb) hb⟩

theorem cleared_nullSkipped {n : Nat} (hq : before.length + 1 = q) (hn : n < q) (run : List BlockId) :
    Cleared q (before ++ run) (nullSkipped n (before ++ run)).2 := by
  rw [nullSkipped_append (by omega)]
  exact ⟨before, _, run, rfl, rfl, hq, nullSkipped_length n before, fun _ _ => of_nullSkipped⟩

theorem cleared_set {j : Nat} (hq : before.length + 1 = q) (hj : j + 1 < q) (run : List BlockId) :
    Cleared q (before ++ run) ((before ++ run).set j nullBlock) := by
  rw [List.set_append_left _ _ (by omega)]
  exact ⟨before, _, run, rfl, rfl, hq, List.length_set, fun _ _ hi hb => (of_set_null hi hb).2⟩

theorem StateList.cleared_refl (h : StateList s q last l) : Cleared q l l := by
  obtain ⟨before, run, rfl, hq, -⟩ := h
  exact ⟨before, before, run, rfl, rfl, hq, rfl, fun _ _ hi _ => hi⟩

structure Trimmed (rid : ReqId) (q : Nat) (m m' : SingleTypeKVCacheManager) : Prop where
  static : SameStatic m m'
  allocated : m'.allocatedBlockReqs = m.allocatedBlockReqs
  last : m'.lastStateBlockIdx = m.lastStateBlockIdx
  blocks : Cleared q (m.blocksOf rid) (m'.blocksOf rid)

theorem Trimmed.trans {m'' : SingleTypeKVCacheManager} (h : Trimmed rid q m m') (h' : Trimmed rid q m' m'') :
    Trimmed rid q m m'' :=
  ⟨h.static.trans h'.static, h'.allocated.trans h.allocated, h'.last.trans h.last, h.blocks.trans h'.blocks⟩

theorem Running.trimmed (h : m.Running spec rid q) (ht : Trimmed rid q m m') : m'.Running spec rid q where
  allocated := ht.allocated ▸ h.allocated
  blocks := ht.last ▸ h.blocks.cleared ht.blocks
  last := ht.last ▸ h.last

theorem Running.trimmed_refl (h : m.Running spec rid q) : Trimmed rid q m m :=
  ⟨.refl, rfl, rfl, h.blocks.cleared_refl⟩

theorem trimmed_setBlocks (h : Cleared q (m.blocksOf rid) l) : Trimmed rid q m (m.setBlocks rid l) where
  static := ⟨rfl, rfl, rfl⟩
  allocated := rfl
  last := rfl
  blocks := by
    rw [blocksOf_setBlocks, if_pos rfl]
    exact h

theorem Running.baseRemoveSkippedBlocks (hm : m.IsAlign spec) (h : m.Running spec rid q) {n : Int}
    (hn : n ≤ q * m.blockSize) : Trimmed rid q m (m.baseRemoveSkippedBlocks p rid n).2 := by
  have hskip : m.getNumSkippedTokens n = n - 1 := by
    rw [getNumSkippedTokens, hm.kvCacheSpec]
  unfold SingleTypeKVCacheManager.baseRemoveSkippedBlocks
  simp only [hskip]
  split
  · exact h.trimmed_refl
  · rename_i hpos
    obtain ⟨before, run, hl, hq, -⟩ := h.blocks
    have hlt : (n - 1) / (m.blockSize : Int) < q := by
      rw [Int.ediv_lt_iff_lt_mul (by exact_mod_cast hm.pos)]
      omega
    refine trimmed_setBlocks ?_
    rw [hl]
    exact cleared_nullSkipped hq (by have := h.blocks.pos; omega) run

theorem Running.freeLastState (h : m.Running spec rid q) {n : Int}
    (hok : m.freeLastState p rid n = .ok (p', m')) : Trimmed rid q m m' ∧
      ∀ j, m.lastStateBlockIdx.get? rid = some j → j < Py.cdiv n m.blockSize - 1 →
        (m'.blocksOf rid).getD j.toNat nullBlock = nullBlock := by
  unfold SingleTypeKVCacheManager.freeLastState at hok
  cases hlast : m.lastStateBlockIdx.get? rid with
  | none =>
    rw [hlast] at hok
    cases hok
    exact ⟨h.trimmed_refl, nofun⟩
  | some j =>
    rw [hlast] at hok
    obtain ⟨hj, hjq⟩ := h.last j hlast
    obtain ⟨before, run, hl, hq, hs, -⟩ := h.blocks
    have hlen := h.blocks.length
    have hindex : Py.index (m.blocksOf rid).length j = some j.toNat := by
      unfold Py.index
      rw [if_pos hj, if_pos (by omega)]
    dsimp only at hok
    split at hok
    · rw [hindex] at hok
      dsimp only at hok
      split at hok
      · cases hok
        refine ⟨trimmed_setBlocks ?_, ?_⟩
        · rw [hl]
          exact cleared_set hq (by omega) run
        · rintro _ ⟨⟩ -
          rw [blocksOf_setBlocks, if_pos rfl, List.getD_eq_getElem?_getD,
            List.getElem?_set_self (by omega)]
          rfl
      · rename_i hnull
        cases hok
        refine ⟨trimmed_setBlocks h.blocks.cleared_refl, ?_⟩
        rintro _ ⟨⟩ -
        rw [blocksOf_setBlocks, if_pos rfl]
        exact not_not.mp hnull
    · rename_i hge
      cases hok
      refine ⟨h.trimmed_refl, ?_⟩
      rintro _ ⟨⟩ hlt
      exact absurd hlt hge

theorem StateList.released {j : Nat} (h : StateList s q (some (j : Int)) l) (hj : j + 1 < q)
    (hnull : l.getD j nullBlock = nullBlock) : StateList s q none l := by
  obtain ⟨before, run, rfl, hq, hs, hrun, honly⟩ := h
  rw [List.getD_eq_getElem?_getD, List.getElem?_append_left (by omega),
    ← List.getD_eq_getElem?_getD] at hnull
  exact ⟨before, run, rfl, hq, hs, hrun, honly.of_null hnull⟩

theorem Running.removeSkippedBlocks (hm : m.IsAlign spec) (h : m.Running spec rid q) {total : Int}
    (htotal : total ≤ q * m.blockSize) (hok : m.removeSkippedBlocks p rid total = .ok (p', m')) :
    Trimmed rid q m m' ∧ (m.Released spec rid total →
      StateList spec.numSpeculativeBlocks q none (m'.blocksOf rid)) := by
  unfold SingleTypeKVCacheManager.removeSkippedBlocks at hok
  rw [hm.kvCacheSpec] at hok
  dsimp only at hok
  rw [if_pos hm.mode] at hok
  have hpos : (0 : Int) ≤ q * m.blockSize := Int.mul_nonneg (Int.natCast_nonneg _) (Int.natCast_nonneg _)
  have hbase := h.baseRemoveSkippedBlocks (p := p) hm
    (n := max 0 (total - spec.numSpeculativeBlocks)) (by omega)
  have hrun := h.trimmed hbase
  obtain ⟨hlast, hfreed⟩ := hrun.freeLastState hok
  have ht := hbase.trans hlast
  have hrun' := h.trimmed ht
  refine ⟨ht, fun hrel => ?_⟩
  have hblocks := hrun'.blocks
  rw [ht.last] at hblocks
  cases hj : m.lastStateBlockIdx.get? rid with
  | none =>
    rw [hj] at hblocks
    exact hblocks
  | some j =>
    rw [hj] at hblocks
    obtain ⟨hj0, hjq⟩ := h.last j hj
    obtain ⟨i, rfl⟩ := Int.eq_ofNat_of_zero_le hj0
    refine hblocks.released (by omega) ?_
    rcases hrel i hj with hnull | hlt
    · exact ht.blocks.getD (by simpa using hnull)
    · have := hfreed i (by rw [hbase.last]; exact hj) (by rw [hbase.static.blockSize]; exact hlt)
      simpa using this

theorem Running.alignAllocateNewBlocks (h : m.Running spec rid q) {n : Int} {q' : Nat}
    (hq' : Py.cdiv n m.blockSize = q') (hle : q ≤ q')
    (hfree : q < q' → StateList spec.numSpeculativeBlocks q none (m.blocksOf rid)) :
    m.alignAllocateNewBlocks c p spec rid n = .ok ([], p, m.setBlocks rid (m.blocksOf rid)) ∧ q = q' ∨
    ∃ before run, q < q' ∧
      m.alignAllocateNewBlocks c p spec rid n = p.getNewBlocks c 1 >>= (fun r =>
        .ok ((before ++ run ++ r.1).drop (m.blocksOf rid).length, r.2,
          m.grown spec rid (before ++ run ++ r.1))) ∧
      before.length + 1 = q' ∧ run.length = spec.numSpeculativeBlocks ∧ nullBlock ∉ run ∧
      OnlyAt (some ((q : Int) - 1)) before ∧
      ∀ b ∈ lastBlocks spec.numSpeculativeBlocks (m.blocksOf rid), b ∈ before ++ run := by
  have hlen := h.blocks.length
  rcases Nat.lt_or_eq_of_le hle with hlt | rfl
  · right
    obtain ⟨before, run, hl, hq, hs, hnull, honly⟩ := hfree hlt
    obtain ⟨b, run, rfl⟩ := List.exists_cons_of_length_eq_add_one hs
    rw [List.length_cons, Nat.add_right_cancel_iff] at hs
    have hpad : ((q' : Int) - 1 - (m.blocksOf rid).length).toNat = q' - 1 - q - spec.numSpeculativeBlocks := by
      omega
    have hstart : ((m.blocksOf rid).length : Int) - spec.numSpeculativeBlocks = ((before ++ [b]).length : Nat) := by
      rw [List.length_append, List.length_singleton]
      omega
    have hcount : ((q' : Int) - 1 - ((before ++ [b]).length : Nat)).toNat = q' - 1 - q := by
      rw [List.length_append, List.length_singleton]
      omega
    have hreuse := reuseSpeculativeBlocks_append ((q' : Int) - 1) (before ++ [b]) run
      (List.replicate (q' - 1 - q - spec.numSpeculativeBlocks) nullBlock)
    rw [hcount] at hreuse
    -- the padding stands among the null blocks
    have hshape : (before ++ [b]) ++ (List.replicate (min run.length (q' - 1 - q)) nullBlock ++
          (run.drop (q' - 1 - q) ++ (List.replicate (q' - 1 - q - spec.numSpeculativeBlocks) nullBlock ++
            run.take (q' - 1 - q)))) =
        (before ++ (b :: List.replicate (q' - 1 - q) nullBlock)) ++
          (run.drop (q' - 1 - q) ++ run.take (q' - 1 - q)) := by
      rcases Nat.le_total run.length (q' - 1 - q) with hge | hge
      · rw [List.drop_eq_nil_of_le hge, Nat.min_eq_left hge]
        simp only [List.nil_append, List.append_assoc, List.cons_append, ← List.append_assoc
          (List.replicate _ _), List.replicate_append_replicate]
        rw [show run.length + (q' - 1 - q - spec.numSpeculativeBlocks) = q' - 1 - q by omega]
      · rw [Nat.min_eq_right hge, show q' - 1 - q - spec.numSpeculativeBlocks = 0 by omega]
        simp
    rw [hshape] at hreuse
    refine ⟨before ++ (b :: List.replicate (q' - 1 - q) nullBlock),
      run.drop (q' - 1 - q) ++ run.take (q' - 1 - q), hlt, ?_, ?_, ?_, ?_, ?_, ?_⟩
    · have hlen' : ((before ++ (b :: List.replicate (q' - 1 - q) nullBlock)) ++
          (run.drop (q' - 1 - q) ++ run.take (q' - 1 - q))).length = q' - 1 + spec.numSpeculativeBlocks := by
        simp only [List.length_append, List.length_cons, List.length_replicate, List.length_drop,
          List.length_take]
        omega
      rw [alignAllocateNewBlocks_eq ((before ++ (b :: List.replicate (q' - 1 - q) nullBlock)) ++
          (run.drop (q' - 1 - q) ++ run.take (q' - 1 - q))) hq' (by omega) ?_ ?_]
      · rw [hlen', show (q' : Int) + spec.numSpeculativeBlocks -
          ((q' - 1 + spec.numSpeculativeBlocks : Nat) : Int) = 1 by omega]
      · rw [if_pos h.allocated, hpad, hstart, ← hreuse, ← hs, hl]
        simp
      · rw [if_pos h.allocated, hlen']
        omega
    · simp only [List.length_append, List.length_cons, List.length_replicate]
      omega
    · simp only [List.length_append, List.length_drop, List.length_take]
      omega
    · intro hmem
      rw [List.mem_append] at hmem
      apply hnull
      rcases hmem with hmem | hmem
      · exact List.mem_cons_of_mem b (List.mem_of_mem_drop hmem)
      · exact List.mem_cons_of_mem b (List.mem_of_mem_take hmem)
    · have := honly.push b (q' - 1 - q)
      rwa [show (before.length : Int) = (q : Int) - 1 by omega] at this
    · intro x hx
      rw [hl, lastBlocks_append before (by rw [List.length_cons]; omega)] at hx
      rw [List.mem_append, List.mem_append]
      rcases List.mem_cons.mp hx with rfl | hx
      · exact .inl (.inr List.mem_cons_self)
      · right
        rw [← List.take_append_drop (q' - 1 - q) run, List.mem_append] at hx
        rw [List.mem_append]
        exact hx.symm
  · left
    refine ⟨?_, rfl⟩
    unfold SingleTypeKVCacheManager.alignAllocateNewBlocks
    simp only [hq']
    rw [if_pos (by omega)]

def MambaHit (blockSize : Nat) (hits : List BlockId) (n : Int) : Prop :=
  hits = [] ∧ n = 0 ∨
    ∃ i b, hits = List.replicate i nullBlock ++ [b] ∧ b ≠ nullBlock ∧ n = ((i + 1 : Nat) : Int) * blockSize

theorem MambaHit.length {blockSize : Nat} {n : Int} (h : MambaHit blockSize hits n) :
    n = hits.length * (blockSize : Int) := by
  rcases h with ⟨rfl, rfl⟩ | ⟨i, b, rfl, -, rfl⟩ <;> simp

theorem MambaHit.onlyAt {blockSize : Nat} {n : Int} (h : MambaHit blockSize hits n) :
    OnlyAt (if 0 < hits.length then some ((hits.length : Int) - 1) else none) hits := by
  rcases h with ⟨rfl, -⟩ | ⟨i, b, rfl, -, -⟩
  · exact onlyAt_nil
  · have hnull : OnlyAt none (List.replicate i nullBlock) := onlyAt_replicate i
    have := hnull.push b 0
    simpa using this

theorem Unstarted.alignAllocateNewBlocks (h : m.Unstarted rid hits) {n : Int} {q' : Nat}
    (hq' : Py.cdiv n m.blockSize = q') (hlt : hits.length < q') :
    m.alignAllocateNewBlocks c p spec rid n =
      p.getNewBlocks c ((spec.numSpeculativeBlocks + 1 : Nat) : Int) >>= (fun r =>
        .ok ((hits ++ List.replicate (q' - 1 - hits.length) nullBlock ++ r.1).drop hits.length, r.2,
          m.grown spec rid (hits ++ List.replicate (q' - 1 - hits.length) nullBlock ++ r.1))) := by
  have hpad : ((q' : Int) - 1 - (m.blocksOf rid).length).toNat = q' - 1 - hits.length := by
    rw [h.blocks]
    omega
  have hlen : (hits ++ List.replicate (q' - 1 - hits.length) nullBlock).length = q' - 1 := by
    rw [List.length_append, List.length_replicate]
    omega
  rw [alignAllocateNewBlocks_eq (hits ++ List.replicate (q' - 1 - hits.length) nullBlock) hq'
    (by rw [h.blocks]; omega) ?_ ?_]
  · rw [hlen, h.blocks, show (q' : Int) + spec.numSpeculativeBlocks - ((q' - 1 : Nat) : Int) =
      ((spec.numSpeculativeBlocks + 1 : Nat) : Int) by omega]
  · rw [if_neg h.allocated, hpad, h.blocks]
  · rw [if_neg h.allocated, hlen]
    omega

theorem stateList_of_fresh {own : BlockId → Nat} {new : List BlockId}
    (hfresh : Fresh c own p new p') (hq : before.length + 1 = q) (hrun : run.length + new.length = s + 1)
    (hnull : nullBlock ∉ run) (honly : OnlyAt last before) : StateList s q last (before ++ run ++ new) := by
  refine ⟨before, run ++ new, List.append_assoc _ _ _, hq, by rw [List.length_append]; exact hrun, ?_, honly⟩
  intro hmem
  rcases List.mem_append.mp hmem with hmem | hmem
  · exact hnull hmem
  · exact (hfresh.unowned _ hmem).1 rfl

theorem Running.allocated_ok (hown : Owned c rest p m) (h : m.Running spec rid q) {n : Int} {q' : Nat}
    (hq' : Py.cdiv n m.blockSize = q') (hle : q ≤ q')
    (hfree : q < q' → StateList spec.numSpeculativeBlocks q none (m.blocksOf rid)) {ret : List BlockId}
    (hok : m.alignAllocateNewBlocks c p spec rid n = .ok (ret, p', m')) :
    m'.Running spec rid q' ∧
      ∀ b ∈ lastBlocks spec.numSpeculativeBlocks (m.blocksOf rid), b ∈ m'.blocksOf rid := by
  rcases h.alignAllocateNewBlocks (c := c) (p := p) hq' hle hfree with
    ⟨heq, rfl⟩ | ⟨before, run, hlt, heq, hbefore, hrun, hnull, honly, hkeep⟩
  · rw [heq] at hok
    cases hok
    refine ⟨h.congr (.setBlocks fun _ => rfl), fun b hb => ?_⟩
    rw [blocksOf_setBlocks, if_pos rfl]
    exact List.mem_of_mem_drop hb
  · rw [heq, Result.bind_eq_ok] at hok
    obtain ⟨⟨new, p₁⟩, hnew, hok⟩ := hok
    cases hok
    obtain ⟨hlen, hfresh⟩ := hown.inv.of_getNewBlocks (by omega) hnew
    have hlen' := h.blocks.length
    have hpos := h.blocks.pos
    have hlast : (m.grown spec rid (before ++ run ++ new)).lastStateBlockIdx.get? rid =
        some ((q : Int) - 1) := by
      rw [grown_last m _ (by omega), if_pos h.allocated]
      congr 1
      omega
    refine ⟨⟨mem_grown_allocated m _, ?_, ?_⟩, fun b hb => ?_⟩
    · rw [hlast, grown_blocksOf]
      have hlength : run.length + new.length = spec.numSpeculativeBlocks + 1 := by
        have hone : new.length = 1 := by exact_mod_cast hlen
        rw [hrun, hone]
      exact stateList_of_fresh hfresh hbefore hlength hnull honly
    · rw [hlast]
      rintro j ⟨⟩
      omega
    · rw [grown_blocksOf]
      exact List.mem_append_left _ (hkeep b hb)

theorem Unstarted.allocated_ok (hown : Owned c rest p m) (h : m.Unstarted rid hits) {n k : Int} {q' : Nat}
    (hq' : Py.cdiv n m.blockSize = q') (hlt : hits.length < q') (hhit : MambaHit m.blockSize hits k)
    {ret : List BlockId} (hok : m.alignAllocateNewBlocks c p spec rid n = .ok (ret, p', m')) :
    m'.Running spec rid q' ∧ ∀ b ∈ hits, b ∈ m'.blocksOf rid := by
  rw [h.alignAllocateNewBlocks hq' hlt, Result.bind_eq_ok] at hok
  obtain ⟨⟨new, p₁⟩, hnew, hok⟩ := hok
  cases hok
  obtain ⟨hlen, hfresh⟩ := hown.inv.of_getNewBlocks (by omega) hnew
  have hlast : (m.grown spec rid (hits ++ List.replicate (q' - 1 - hits.length) nullBlock ++
      new)).lastStateBlockIdx.get? rid = if 0 < hits.length then some ((hits.length : Int) - 1) else none := by
    split
    · rename_i hpos
      rw [grown_last m _ (by rw [h.blocks]; exact hpos), if_neg h.allocated, h.blocks]
    · rename_i hzero
      show (m.recordLastState spec rid (m.blocksOf rid).length).lastStateBlockIdx.get? rid = none
      rw [recordLastState, if_neg h.allocated, if_neg (by rw [h.blocks]; exact hzero)]
      exact h.last
  have honly : OnlyAt (if 0 < hits.length then some ((hits.length : Int) - 1) else none)
      (hits ++ List.replicate (q' - 1 - hits.length) nullBlock) := by
    intro i b hi hb
    rw [List.getElem?_append] at hi
    split at hi
    · exact hhit.onlyAt i b hi hb
    · exact absurd (List.eq_of_mem_replicate (List.mem_of_getElem? hi)) hb
  refine ⟨⟨mem_grown_allocated m _, ?_, ?_⟩, fun b hb => ?_⟩
  · rw [hlast, grown_blocksOf]
    have hlength : (hits ++ List.replicate (q' - 1 - hits.length) nullBlock).length + 1 = q' := by
      rw [List.length_append, List.length_replicate]
      omega
    have hnew : ([] : List BlockId).length + new.length = spec.numSpeculativeBlocks + 1 := by
      rw [List.length_nil]
      omega
    have := stateList_of_fresh hfresh hlength hnew List.not_mem_nil honly
    simpa using this
  · rw [hlast]
    intro j hj
    split at hj
    · cases hj
      omega
    · cases hj
  · rw [grown_blocksOf]
    exact List.mem_append_left _ (List.mem_append_left _ hb)

end SingleTypeKVCacheManager

end Vllm
