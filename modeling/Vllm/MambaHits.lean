import Vllm.HybridCoordinator
import Vllm.MambaAlignOps
import Vllm.SlidingWindowHit

namespace Vllm

open BlockPool

namespace CacheHit

variable {c : PoolConfig} {q : Lookup} {rows : List HitRow}

theorem length_leadingHits_le (hashes : List BlockHash) : (q.leadingHits hashes).length ≤ hashes.length := by
  induction hashes with
  | nil => exact Nat.le_refl 0
  | cons x hashes ih =>
    unfold Lookup.leadingHits
    split
    · exact Nat.succ_le_succ ih
    · exact Nat.zero_le _

theorem length_popUnaligned_le (rows : List HitRow) : (q.popUnaligned rows).length ≤ rows.length := by
  rw [Lookup.popUnaligned, List.length_take]
  exact Nat.min_le_right _ _

theorem length_slidingScan_le {need : Int} {n k k' : Nat} {rows' : List HitRow} {found : Bool}
    (h : slidingScan q need n rows k = .ok (rows', k', found)) : rows'.length ≤ rows.length := by
  induction n generalizing rows k with
  | zero =>
    cases h
    exact Nat.le_refl _
  | succ n ih =>
    simp only [slidingScan, Result.bind_eq_ok] at h
    obtain ⟨x, -, h⟩ := h
    split at h
    · split at h
      · exact ih h
      · split at h
        · cases h
          rw [List.length_take, List.length_set]
          exact Nat.min_le_right _ _
        · have := ih h
          rwa [List.length_set] at this
    · exact ih h

theorem length_chunkHits_le {n i : Nat} (h : chunkHits q n i = .ok rows) : rows.length ≤ n := by
  induction n generalizing i rows with
  | zero =>
    cases h
    exact Nat.le_refl 0
  | succ n ih =>
    simp only [chunkHits, Result.bind_eq_ok] at h
    obtain ⟨x, -, h⟩ := h
    split at h
    · simp only [Result.bind_eq_ok, Result.pure_eq_ok] at h
      obtain ⟨rest, hrest, rfl⟩ := h
      exact Nat.succ_le_succ (ih hrest)
    · cases h
      exact Nat.zero_le _

theorem mambaScan_eq_ok {n : Nat} (h : mambaScan q n = .ok rows) : rows = [] ∨
    ∃ i row x, i < n ∧ rows = List.replicate i q.nullRow ++ [row] ∧ q.hit x = some row := by
  induction n with
  | zero =>
    cases h
    exact .inl rfl
  | succ n ih =>
    simp only [mambaScan, Result.bind_eq_ok] at h
    obtain ⟨x, -, h⟩ := h
    have hrec : mambaScan q n = .ok rows → rows = [] ∨
        ∃ i row x, i < n + 1 ∧ rows = List.replicate i q.nullRow ++ [row] ∧ q.hit x = some row := by
      intro h
      rcases ih h with hnil | ⟨i, row, x, hlt, hrows⟩
      · exact .inl hnil
      · exact .inr ⟨i, row, x, Nat.lt_succ_of_lt hlt, hrows⟩
    split at h
    · rename_i row hrow
      split at h
      · exact hrec h
      · cases h
        exact .inr ⟨n, row, x, Nat.lt_succ_self n, rfl, hrow⟩
    · exact hrec h

theorem length_find_le {spec : KVCacheSpec} {L : Int} (hL : 0 ≤ L) (h : find spec q L = .ok rows) :
    rows.length ≤ (L / q.blockSize).toNat := by
  have hfull : fullAttention q L = .ok rows → rows.length ≤ (L / q.blockSize).toNat := by
    intro h
    unfold fullAttention at h
    simp only at h
    split at h
    · cases h
    · cases h
      refine (length_popUnaligned_le _).trans ?_
      have htake := length_leadingHits_le (q := q) (q.blockHashes.take (L / q.blockSize).toNat)
      rw [List.length_take] at htake
      split
      · rw [List.length_dropLast]
        omega
      · omega
  cases spec with
  | fullAttention a v w k => exact hfull h
  | mlaAttention a d => exact hfull h
  | slidingWindow a w =>
    simp only [find, slidingWindow, Result.bind_eq_ok, Prod.exists] at h
    obtain ⟨rows', k, found, hscan, h⟩ := h
    have hlen := length_slidingScan_le hscan
    rw [List.length_replicate] at hlen
    have hrows : (if found = true then rows' else q.popUnaligned (rows'.take k)).length ≤
        (L / q.blockSize).toNat := by
      split
      · exact hlen
      · refine (length_popUnaligned_le _).trans ?_
        rw [List.length_take]
        omega
    generalize (if found = true then rows' else q.popUnaligned (rows'.take k)) = rows₁ at h hrows
    split at h
    · simp only [Result.bind_eq_ok, Result.pure_eq_ok] at h
      obtain ⟨-, -, rfl⟩ := h
      rw [List.length_dropLast]
      omega
    · cases h
      exact hrows
  | chunkedLocalAttention a k =>
    simp only [find, chunkedLocalAttention, Result.bind_eq_ok, Result.pure_eq_ok] at h
    obtain ⟨-, -, -, -, hits, hhits, rfl⟩ := h
    have hlen := length_chunkHits_le hhits
    have hstart : ((if L > 0 then L / (k : Int) * k else 0) / (q.blockSize : Int)).toNat ≤
        (L / q.blockSize).toNat := by
      have hle : (if L > 0 then L / (k : Int) * k else 0) ≤ L := by
        split
        · rcases Nat.eq_zero_or_pos k with rfl | hk
          · simpa using hL
          · exact Int.ediv_mul_le L (by omega)
        · exact hL
      rcases Nat.eq_zero_or_pos q.blockSize with hzero | hpos
      · rw [hzero]
        simp
      · exact Int.toNat_le_toNat (Int.ediv_le_ediv (by exact_mod_cast hpos) hle)
    rw [List.length_append, List.length_replicate]
    omega
  | mamba m =>
    rcases mambaScan_eq_ok h with rfl | ⟨i, row, x, hlt, rfl, -⟩
    · exact Nat.zero_le _
    · rw [List.length_append, List.length_replicate, List.length_singleton]
      exact hlt
  | crossAttention a => cases h

theorem mambaHit_column (hq : q.pool.HashOk c) {m : MambaSpec} {L : Int}
    (h : find (.mamba m) q L = .ok rows) {g : Nat} (hg : g < q.groupIds.length) :
    SingleTypeKVCacheManager.MambaHit q.blockSize (column rows g) ((rows.length : Int) * q.blockSize) := by
  rcases mambaScan_eq_ok h with rfl | ⟨i, row, x, -, rfl, hhit⟩
  · left
    exact ⟨rfl, Int.zero_mul _⟩
  · right
    have hrow := Lookup.hit_eq_some hhit
    have hlen := length_getCachedBlock hrow
    obtain ⟨b, hb⟩ : ∃ b, row[g]? = some b := ⟨_, List.getElem?_eq_getElem (by omega)⟩
    obtain ⟨gid, -, hkey⟩ := getCachedBlock_spec hq hrow g b hb
    refine ⟨i, b, ?_, (hq.valid b _ hkey).1, ?_⟩
    · have hnull : q.nullRow.getD g nullBlock = nullBlock := by
        rw [List.getD_eq_getElem?_getD, Lookup.nullRow, List.getElem?_map]
        cases q.groupIds[g]? <;> rfl
      rw [column, List.map_append, List.map_replicate, hnull, List.map_singleton,
        List.getD_eq_getElem?_getD, hb]
      rfl
    · rw [List.length_append, List.length_replicate, List.length_singleton]

end CacheHit

namespace KVCacheManager

variable {k : KVCacheManagerConfig} {pool : BlockPool} {hashes : List BlockHash} {gs : List AttentionGroup}
variable {f f' : HitBlocks} {L L' : Int} {i : Nat} {spec : MambaSpec}

def MambaFound (f : HitBlocks) (i : Nat) (spec : MambaSpec) (lo hi : Int) : Prop :=
  ∃ hits n, f i = some hits ∧ SingleTypeKVCacheManager.MambaHit spec.blockSize hits n ∧ lo ≤ n ∧ n ≤ hi

structure MambaPass (k : KVCacheManagerConfig) (gs : List AttentionGroup) (L : Int) (f : HitBlocks) (L' : Int)
    (f' : HitBlocks) : Prop where
  nonneg : 0 ≤ L'
  le : L' ≤ L
  onNil : gs = [] → L' = L
  frame : ∀ i, (∀ g ∈ gs, i ∉ g.groupIds) → f' i = f i
  found : ∀ g ∈ gs, ∀ spec, g.spec = .mamba spec → ∀ i ∈ g.groupIds, MambaFound f' i spec L' L
  last : ∀ g, gs.getLast? = some g → ∀ spec, g.spec = .mamba spec → ∀ i ∈ g.groupIds, MambaFound f' i spec L' L'

theorem MambaFound.mono {lo hi hi' : Int} (h : MambaFound f i spec lo hi) (hle : hi ≤ hi') :
    MambaFound f i spec lo hi' := by
  obtain ⟨hits, n, hf, hhit, hlo, hhi⟩ := h
  exact ⟨hits, n, hf, hhit, hlo, hhi.trans hle⟩

theorem MambaPass.nil (hL : 0 ≤ L) : MambaPass k [] L f L f where
  nonneg := hL
  le := Int.le_refl L
  onNil _ := rfl
  frame _ _ := rfl
  found := nofun
  last := nofun

theorem MambaPass.reuse {g : AttentionGroup} {L₁ : Int} (hfull : g.spec.isFullAttention = true) (hle : L₁ ≤ L)
    (h : MambaPass k gs L₁ f L' f') : MambaPass k (g :: gs) L f L' f' where
  nonneg := h.nonneg
  le := h.le.trans hle
  onNil := nofun
  frame i hi := h.frame i fun g' hg' => hi g' (List.mem_cons_of_mem g hg')
  found g' hg' spec hs i hi := by
    rcases List.mem_cons.mp hg' with rfl | hg'
    · rw [hs] at hfull
      cases hfull
    · exact (h.found g' hg' spec hs i hi).mono hle
  last g' hlast spec hs i hi := by
    cases gs with
    | nil =>
      rw [List.getLast?_singleton, Option.some_inj] at hlast
      rw [hlast, hs] at hfull
      cases hfull
    | cons g₁ gs => exact h.last g' hlast spec hs i hi

theorem MambaPass.look {g : AttentionGroup} {rows : List HitRow} (hpool : pool.HashOk k.toPoolConfig)
    (hgs : Groups k (g :: gs)) (hL : 0 ≤ L)
    (hfind : CacheHit.find g.spec (k.lookup pool hashes g) L = .ok rows)
    (h : MambaPass k gs ((rows.length : Int) * g.spec.blockSize) (assignColumns rows g.groupIds f) L' f') :
    MambaPass k (g :: gs) L f L' f' := by
  obtain ⟨hnodup, hdisj⟩ := hgs.head
  have hle : (rows.length : Int) * g.spec.blockSize ≤ L := by
    have hlen := CacheHit.length_find_le hL hfind
    have hdiv : 0 ≤ L / (g.spec.blockSize : Int) := Int.ediv_nonneg hL (Int.natCast_nonneg _)
    have hrows : (rows.length : Int) ≤ L / (g.spec.blockSize : Int) := by
      change rows.length ≤ (L / (g.spec.blockSize : Int)).toNat at hlen
      omega
    rcases Nat.eq_zero_or_pos g.spec.blockSize with hzero | hpos
    · rw [hzero]
      simpa using hL
    · exact (Int.mul_le_mul_of_nonneg_right hrows (Int.natCast_nonneg _)).trans
        (Int.ediv_mul_le L (by omega))
  have hfound : ∀ spec, g.spec = .mamba spec → ∀ i ∈ g.groupIds,
      MambaFound f' i spec L' ((rows.length : Int) * g.spec.blockSize) := by
    intro spec hs i hi
    obtain ⟨j, hj⟩ := List.mem_iff_getElem?.mp hi
    have hlt : j < g.groupIds.length := (List.getElem?_eq_some_iff.mp hj).1
    refine ⟨_, _, (h.frame i fun g' hg' => hdisj i hi g' hg').trans (assignColumns_of_getElem? hnodup hj),
      ?_, h.le, Int.le_refl _⟩
    have hq : (k.lookup pool hashes g).pool.HashOk k.toPoolConfig := hpool
    have hbs : (k.lookup pool hashes g).blockSize = spec.blockSize := by
      show g.spec.blockSize = _
      rw [hs]
      rfl
    rw [hs] at hfind
    have := CacheHit.mambaHit_column hq hfind hlt
    rw [hbs] at this
    rw [hs]
    exact this
  refine ⟨h.nonneg, h.le.trans hle, nofun, fun i hi => ?_, fun g' hg' spec hs i hi => ?_, fun g' hlast spec hs i hi => ?_⟩
  · rw [h.frame i fun g' hg' => hi g' (List.mem_cons_of_mem g hg')]
    exact assignColumns_of_notMem (hi g List.mem_cons_self)
  · rcases List.mem_cons.mp hg' with rfl | hg'
    · exact (hfound spec hs i hi).mono hle
    · exact (h.found g' hg' spec hs i hi).mono hle
  · cases gs with
    | nil =>
      rw [List.getLast?_singleton, Option.some_inj] at hlast
      subst hlast
      have := hfound spec hs i hi
      rwa [← h.onNil rfl] at this
    | cons g₁ gs => exact h.last g' hlast spec hs i hi

theorem hybridPass_mamba (hpool : pool.HashOk k.toPoolConfig) (hgs : Groups k gs) (hL : 0 ≤ L)
    (hok : hybridPass k pool hashes gs L f = .ok (L', f')) : MambaPass k gs L f L' f' := by
  induction gs generalizing L f with
  | nil =>
    cases hok
    exact .nil hL
  | cons g gs ih =>
    unfold hybridPass at hok
    split at hok
    · rename_i hreused
      refine .reuse hreused.1 ?_ (ih hgs.tail ?_ hok)
      · rcases Nat.eq_zero_or_pos g.spec.blockSize with hzero | hpos
        · rw [hzero]
          simpa using hL
        · exact Int.ediv_mul_le L (by omega)
      · exact Int.mul_nonneg (Int.ediv_nonneg hL (Int.natCast_nonneg _)) (Int.natCast_nonneg _)
    · rw [Result.bind_eq_ok] at hok
      obtain ⟨rows, hrows, hok⟩ := hok
      refine .look hpool hgs hL hrows (ih hgs.tail ?_ hok)
      exact Int.mul_nonneg (Int.natCast_nonneg _) (Int.natCast_nonneg _)

theorem exists_attentionGroup {spec : KVCacheSpec} (hi : k.kvCacheGroups[i]? = some spec) :
    ∃ g ∈ k.attentionGroups, g.spec = spec ∧ i ∈ g.groupIds := by
  have hlt : i < k.kvCacheGroups.length := (List.getElem?_eq_some_iff.mp hi).1
  have hmem := k.attentionGroups_ids.mem_iff.mpr (List.mem_range.mpr hlt)
  obtain ⟨g, hg, hig⟩ := List.mem_flatMap.mp hmem
  have hspec := (k.attentionGroups_spec hg).2 i hig
  rw [hi, Option.some_inj] at hspec
  exact ⟨g, hg, hspec.symm, hig⟩

theorem hybridLoop_mamba (hpool : pool.HashOk k.toPoolConfig) {fuel : Nat} (hL : 0 ≤ L)
    (hok : hybridLoop k pool hashes fuel L f = .ok (L', f')) :
    0 ≤ L' ∧ L' ≤ L ∧ ∀ i spec, k.kvCacheGroups[i]? = some (.mamba spec) → MambaFound f' i spec L' L' := by
  induction fuel generalizing L f with
  | zero => cases hok
  | succ fuel ih =>
    simp only [hybridLoop, Result.bind_eq_ok, Prod.exists] at hok
    obtain ⟨L₁, f₁, hpass, hok⟩ := hok
    have h := hybridPass_mamba hpool (groups_attentionGroups k) hL hpass
    split at hok
    · rename_i hge
      cases hok
      have heq : L₁ = L' := Int.le_antisymm h.le hge
      refine ⟨hL, Int.le_refl L', fun i spec hi => ?_⟩
      obtain ⟨g, hg, hs, hig⟩ := exists_attentionGroup hi
      have := h.found g hg spec hs i hig
      rwa [heq] at this
    · split at hok
      · rename_i hsimple
        cases hok
        refine ⟨h.nonneg, h.le, fun i spec hi => ?_⟩
        obtain ⟨g, hg, hs, hig⟩ := exists_attentionGroup hi
        refine h.last g ?_ spec hs i hig
        -- the first of the two groups is a full attention group
        unfold KVCacheManagerConfig.isSimpleHybrid at hsimple
        split at hsimple
        · rename_i g₀ g₁ hgroups
          rw [hgroups] at hg ⊢
          simp only [List.mem_cons, List.not_mem_nil, or_false] at hg
          rcases hg with rfl | rfl
          · rw [hs] at hsimple
            cases hsimple
          · rfl
        · cases hsimple
      · obtain ⟨h0, hle, hall⟩ := ih h.nonneg hok
        exact ⟨h0, hle.trans h.le, hall⟩

theorem truncateFull_mamba {n : Int} (hi : k.kvCacheGroups[i]? = some (.mamba spec)) :
    truncateFull k n f i = f i := by
  unfold truncateFull
  cases hgroups : k.attentionGroups with
  | nil => rfl
  | cons g gs =>
    dsimp only
    by_cases hfull : g.spec.isFullAttention = true
    · rw [if_pos hfull]
      have hg : g ∈ k.attentionGroups := by
        rw [hgroups]
        exact List.mem_cons_self
      refine if_neg fun hig => ?_
      have hspec := (k.attentionGroups_spec hg).2 i hig
      rw [hi, Option.some_inj] at hspec
      rw [← hspec] at hfull
      cases hfull
    · rw [if_neg hfull]

theorem unitaryFind_mamba (hpool : pool.HashOk k.toPoolConfig) (hL : 0 ≤ L) {s : KVCacheSpec}
    {hits : List (List BlockId)} (hok : unitaryFind k pool s hashes L = .ok (hits, L')) :
    0 ≤ L' ∧ L' ≤ L ∧ ∀ spec, s = .mamba spec →
      SingleTypeKVCacheManager.MambaHit (k.managerBlockSize s) (hits.getD 0 []) L' := by
  simp only [unitaryFind, Result.bind_eq_ok, Result.pure_eq_ok, Prod.mk.injEq] at hok
  obtain ⟨rows, hrows, rfl, rfl⟩ := hok
  have hlen := CacheHit.length_find_le hL hrows
  refine ⟨Int.mul_nonneg (Int.natCast_nonneg _) (Int.natCast_nonneg _), ?_, ?_⟩
  · dsimp only at hlen
    have hdiv : 0 ≤ L / (k.managerBlockSize s : Int) := Int.ediv_nonneg hL (Int.natCast_nonneg _)
    have hle : (rows.length : Int) ≤ L / (k.managerBlockSize s : Int) := by omega
    rcases Nat.eq_zero_or_pos (k.managerBlockSize s) with hzero | hpos
    · rw [hzero]
      simpa using hL
    · exact (Int.mul_le_mul_of_nonneg_right hle (Int.natCast_nonneg _)).trans (Int.ediv_mul_le L (by omega))
  · rintro spec rfl
    exact CacheHit.mambaHit_column (by exact hpool) hrows (by exact Nat.one_pos)

theorem hybridFind_mamba (hpool : pool.HashOk k.toPoolConfig) (hL : 0 ≤ L) {hits : List (List BlockId)}
    (hok : hybridFind k pool hashes L = .ok (hits, L')) :
    0 ≤ L' ∧ L' ≤ L ∧ ∀ i spec, k.kvCacheGroups[i]? = some (.mamba spec) →
      SingleTypeKVCacheManager.MambaHit spec.blockSize (hits.getD i []) L' := by
  simp only [hybridFind, Result.bind_eq_ok, Prod.exists, Result.pure_eq_ok, Prod.mk.injEq] at hok
  obtain ⟨L₁, f₁, hloop, rfl, rfl⟩ := hok
  obtain ⟨h0, hle, hfound⟩ := hybridLoop_mamba hpool hL hloop
  refine ⟨h0, hle, fun i spec hi => ?_⟩
  obtain ⟨hits, n, hf, hhit, hlo, hhi⟩ := hfound i spec hi
  have hlt : i < k.kvCacheGroups.length := (List.getElem?_eq_some_iff.mp hi).1
  rw [List.getD_eq_getElem?_getD, List.getElem?_map, List.getElem?_range hlt, Option.map_some,
    Option.getD_some, truncateFull_mamba hi, hf, Option.getD_some, Int.le_antisymm hlo hhi]
  exact hhit

theorem findLongestCacheHit_mamba (hpool : pool.HashOk k.toPoolConfig) (hworld : k.worldSize = 1) (hL : 0 ≤ L)
    {hits : List (List BlockId)} (hok : findLongestCacheHit k pool hashes L = .ok (hits, L')) :
    0 ≤ L' ∧ L' ≤ L ∧ ∀ i spec, k.kvCacheGroups[i]? = some (.mamba spec) →
      SingleTypeKVCacheManager.MambaHit spec.blockSize (hits.getD i []) L' := by
  unfold findLongestCacheHit at hok
  split at hok
  · split at hok
    · rename_i s hgroups
      obtain ⟨h0, hle, hhit⟩ := unitaryFind_mamba hpool hL hok
      refine ⟨h0, hle, fun i spec hi => ?_⟩
      rw [hgroups] at hi
      cases i with
      | zero =>
        rw [List.getElem?_cons_zero, Option.some_inj] at hi
        have := hhit spec hi
        rwa [KVCacheManagerConfig.managerBlockSize, if_neg (by omega), hi] at this
      | succ i => simp at hi
    · exact hybridFind_mamba hpool hL hok
  · cases hok
    refine ⟨Int.le_refl 0, hL, fun i spec hi => .inl ⟨?_, rfl⟩⟩
    rw [List.getD_eq_getElem?_getD, List.getElem?_map]
    cases k.kvCacheGroups[i]? <;> rfl

theorem getComputedBlocks_mamba {s : KVCacheManager} (hpool : s.blockPool.HashOk k.toPoolConfig)
    (hworld : k.worldSize = 1) {request : Request} (hpos : 0 < request.numTokens) {hits : List (List BlockId)}
    (hok : s.getComputedBlocks k request = .ok (hits, L)) : 0 ≤ L ∧ L < request.numTokens ∧
      ∀ i spec, k.kvCacheGroups[i]? = some (.mamba spec) →
        SingleTypeKVCacheManager.MambaHit spec.blockSize (hits.getD i []) L := by
  unfold getComputedBlocks at hok
  split at hok
  · cases hok
    refine ⟨Int.le_refl 0, by exact_mod_cast hpos, fun i spec hi => .inl ⟨?_, rfl⟩⟩
    rw [List.getD_eq_getElem?_getD, List.getElem?_map]
    cases k.kvCacheGroups[i]? <;> rfl
  · obtain ⟨h0, hle, hhit⟩ := findLongestCacheHit_mamba hpool hworld (by omega) hok
    exact ⟨h0, by omega, hhit⟩

end KVCacheManager

end Vllm
