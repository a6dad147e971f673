import Vllm.HybridCoordinator
import Vllm.KVRun

namespace Vllm

open BlockPool

namespace KVCacheManager

variable {c : KVCacheManagerConfig} {pool : BlockPool} {hashes : List BlockHash}
variable {gs : List AttentionGroup} {g : AttentionGroup} {f : HitBlocks} {L : Nat}
variable {g₁ g₂ : AttentionGroup} {rows₁ rows₂ : List HitRow} {max : Nat}

structure FirstPass (c : KVCacheManagerConfig) (pool : BlockPool) (hashes : List BlockHash)
    (g₂ : AttentionGroup) (gs : List AttentionGroup) (max : Nat) (rows₂ : List HitRow)
    (L : Nat) (f : HitBlocks) : Prop where
  pass : Pass c pool hashes c.attentionGroups max (fun _ => none) L f
  second : Holds f g₂ rows₂
  le : L ≤ rows₂.length * g₂.spec.blockSize
  eq_iff : L = rows₂.length * g₂.spec.blockSize ↔
    ∀ g ∈ gs, AcceptsLength c pool hashes g (rows₂.length * g₂.spec.blockSize)
  found : ∀ g ∈ g₂ :: gs, ∃ rows, Holds f g rows ∧
    CacheHit.Valid g.spec (c.lookup pool hashes g) rows ∧
    L ≤ rows.length * g.spec.blockSize ∧
    rows.length * g.spec.blockSize ≤ rows₂.length * g₂.spec.blockSize

theorem firstPass_spec (pool : BlockPool) (hc : c.Hybrid)
    (hgroups : c.attentionGroups = g₁ :: g₂ :: gs)
    (hb : g₁.spec.isFullAttention = true ∨ c.Covered hashes max) :
    ∃ rows₁ rows₂ L f, CacheHit.find g₁.spec (c.lookup pool hashes g₁) max = .ok rows₁ ∧
      CacheHit.find g₂.spec (c.lookup pool hashes g₂) (rows₁.length * g₁.spec.blockSize : Nat) =
        .ok rows₂ ∧
      FirstPass c pool hashes g₂ gs max rows₂ L f := by
  have hgs := groups_attentionGroups c
  rw [hgroups] at hgs
  have hg₁ := hgs.mem g₁ List.mem_cons_self
  have hg₂ := hgs.mem g₂ (List.mem_cons_of_mem _ List.mem_cons_self)
  obtain ⟨rows₁, hrows₁, haligned₁, hcov₁⟩ := hc.find pool hashes hg₁ hb
  obtain ⟨rows₂, hrows₂, haligned₂, hcov₂⟩ := hc.find pool hashes hg₂ (.inr hcov₁)
  obtain ⟨hnd₁, hdisj₁⟩ := hgs.head
  obtain ⟨hnd₂, hdisj₂⟩ := hgs.tail.head
  obtain ⟨f₁, hf₁⟩ : ∃ f₁, f₁ = assignColumns rows₁ g₁.groupIds fun _ => none := ⟨_, rfl⟩
  have hr₁ : ∀ g ∈ g₂ :: gs, ¬ Reused f₁ g := fun g hg hr =>
    not_reused_none g ((hgs.reused_assign rows₁ _ g hg).mp (hf₁ ▸ hr))
  have hr₂ : ∀ g ∈ gs, ¬ Reused (assignColumns rows₂ g₂.groupIds f₁) g := fun g hg hr =>
    hr₁ g (List.mem_cons_of_mem _ hg) ((hgs.tail.reused_assign rows₂ f₁ g hg).mp hr)
  obtain ⟨L, f, hpass⟩ := pass_spec pool hc hgs.tail.tail (fun _ => haligned₂) (.inl hcov₂)
    (f := assignColumns rows₂ g₂.groupIds f₁)
  have hpass₂ := hpass.look (hr₁ g₂ List.mem_cons_self) (c.attentionGroups_spec hg₂).1 hnd₂ hdisj₂
    hrows₂ haligned₂ hcov₂ (hgs.tail.reused_assign rows₂ f₁)
  have hpass₁ := (hf₁ ▸ hpass₂).look (not_reused_none g₁) (c.attentionGroups_spec hg₁).1 hnd₁ hdisj₁
    hrows₁ haligned₁ hcov₁ (hgs.reused_assign rows₁ _)
  have hsecond : Holds f g₂ rows₂ := by
    intro k i hk
    rw [hpass.frame i fun g hg _ => hdisj₂ i (List.mem_of_getElem? hk) g hg,
      assignColumns_of_getElem? hnd₂ hk]
  refine ⟨rows₁, rows₂, L, f, hrows₁.find, hrows₂.find, ⟨hgroups ▸ hpass₁, hsecond, hpass.le, ?_, ?_⟩⟩
  · rw [hpass.accepted]
    exact ⟨fun h g hg => h g hg (hr₂ g hg), fun h g hg _ => h g hg⟩
  · intro g hg
    rcases List.mem_cons.mp hg with rfl | hg
    · exact ⟨rows₂, hsecond, hrows₂.valid, hpass.le, Nat.le_refl _⟩
    · obtain ⟨rows, hholds, hvalid, hlo, hhi, -⟩ := hpass.found g hg (hr₂ g hg)
      exact ⟨rows, hholds, hvalid, hlo, hhi⟩

theorem hybridLoop_of_firstPass (hc : c.Hybrid) (hgroups : c.attentionGroups = g₁ :: g₂ :: gs)
    (h : FirstPass c pool hashes g₂ gs max rows₂ L f) :
    ∃ (H : Nat) (f' : HitBlocks),
      hybridLoop c pool hashes (max + 2) max (fun _ => none) = .ok ((H : Int), f') ∧
      Ends c pool hashes L f H f' := by
  have hne : c.attentionGroups ≠ [] := by
    rw [hgroups]
    exact List.cons_ne_nil _ _
  have hle := h.pass.le
  have hfull : ∀ g ∈ c.attentionGroups, g.spec.isFullAttention = true → Reused f g := by
    intro g hg hgf
    obtain ⟨rows, hholds, -⟩ := h.pass.found g hg (not_reused_none g)
    exact hholds.reused (c.attentionGroups_spec hg).1 hgf
  unfold hybridLoop
  rw [h.pass.ok, Result.ok_bind]
  simp only
  split
  · refine ⟨L, f, ?_, Nat.le_refl L, h.pass.aligned hne, fun _ _ _ _ _ => rfl,
      fun g hg _ => ?_, fun _ => rfl⟩
    · rw [show max = L by omega]
      rfl
    · obtain ⟨rows, hholds, hvalid, hlo, hhi, -⟩ := h.pass.found g hg (not_reused_none g)
      exact ⟨rows, hholds, hvalid, by omega⟩
  · rename_i hlt
    cases hsimple : c.isSimpleHybrid with
    | true =>
      refine ⟨L, f, rfl, Nat.le_refl L, h.pass.aligned hne, fun _ _ _ _ _ => rfl,
        fun g hg hgo => ?_, fun _ => rfl⟩
      -- the only group that is not full attention is the last one
      obtain ⟨rows, hholds, hvalid, -, -, hlast⟩ := h.pass.found g hg (not_reused_none g)
      refine ⟨rows, hholds, hvalid, hlast ?_⟩
      unfold KVCacheManagerConfig.isSimpleHybrid at hsimple
      split at hsimple
      · rename_i x y heq
        rw [heq] at hg ⊢
        simp only [List.mem_cons, List.not_mem_nil, or_false] at hg
        rcases hg with rfl | rfl
        · rw [hgo] at hsimple
          cases hsimple
        · rfl
      · cases hsimple
    | false =>
      rw [if_neg (by simp)]
      exact hybridLoop_spec hc hsimple (by omega) (h.pass.aligned hne) (h.pass.covered hne) hfull

def ValidHit (c : KVCacheManagerConfig) (pool : BlockPool) (hashes : List BlockHash)
    (spec : KVCacheSpec) (groupId : Nat) (blocks : List BlockId) : Prop :=
  ∀ j b, blocks[j]? = some b → CacheHit.firstRead spec spec.blockSize blocks.length ≤ j →
    ∃ x, (blockHashesFor c.toPoolConfig spec.blockSize hashes)[j]? = some x ∧
      pool.getCachedBlock x [groupId] = some [b]

/-- The lookup returns, and its lists agree on a length that is a hit for every group. -/
def HitsAgree (c : KVCacheManagerConfig) (pool : BlockPool) (hashes : List BlockHash)
    (max : Nat) : Prop :=
  ∃ (lists : List (List BlockId)) (H : Nat),
    hybridFind c pool hashes max = .ok (lists, (H : Int)) ∧ H ≤ max ∧
    ∀ i spec, c.kvCacheGroups[i]? = some spec → spec.blockSize ∣ H ∧
      ∃ blocks, lists[i]? = some blocks ∧ spec.blockSize * blocks.length = H ∧
        ValidHit c pool hashes spec i blocks

/-- If the second attention group is a full attention group, no later group reduces the length that
the first two agree on. -/
def LaterGroupsAccept (c : KVCacheManagerConfig) (pool : BlockPool) (hashes : List BlockHash)
    (max : Nat) : Prop :=
  ∀ g₁ g₂ gs rows₁ rows₂, c.attentionGroups = g₁ :: g₂ :: gs → g₂.spec.isFullAttention = true →
    CacheHit.find g₁.spec (c.lookup pool hashes g₁) max = .ok rows₁ →
    CacheHit.find g₂.spec (c.lookup pool hashes g₂) (rows₁.length * g₁.spec.blockSize : Nat) =
      .ok rows₂ →
    ∀ g ∈ gs, AcceptsLength c pool hashes g (rows₂.length * g₂.spec.blockSize)

instance (g : AttentionGroup) (L : Nat) : Decidable (AcceptsLength c pool hashes g L) :=
  match h : CacheHit.find g.spec (c.lookup pool hashes g) L with
  | .ok rows => decidable_of_iff (rows.length * g.spec.blockSize = L)
      ⟨fun heq => ⟨rows, h, heq⟩, fun ⟨_, hok, heq⟩ => by rw [h] at hok; cases hok; exact heq⟩
  | .error _ => isFalse fun ⟨_, hok, _⟩ => by rw [h] at hok; cases hok

theorem laterGroupsAccept_iff (hgroups : c.attentionGroups = g₁ :: g₂ :: gs)
    (hfind₁ : CacheHit.find g₁.spec (c.lookup pool hashes g₁) max = .ok rows₁)
    (hfind₂ : CacheHit.find g₂.spec (c.lookup pool hashes g₂)
      (rows₁.length * g₁.spec.blockSize : Nat) = .ok rows₂) :
    LaterGroupsAccept c pool hashes max ↔ (g₂.spec.isFullAttention = true →
      ∀ g ∈ gs, AcceptsLength c pool hashes g (rows₂.length * g₂.spec.blockSize)) := by
  constructor
  · exact fun h hfull => h g₁ g₂ gs rows₁ rows₂ hgroups hfull hfind₁ hfind₂
  · intro h g₁' g₂' gs' rows₁' rows₂' hgroups' hfull hfind₁' hfind₂'
    rw [hgroups] at hgroups'
    cases hgroups'
    rw [hfind₁] at hfind₁'
    cases hfind₁'
    rw [hfind₂] at hfind₂'
    cases hfind₂'
    exact h hfull

theorem exists_group {i : Nat} {spec : KVCacheSpec} (hi : c.kvCacheGroups[i]? = some spec) :
    ∃ g ∈ c.attentionGroups, g.spec = spec ∧ ∃ k : Nat, g.groupIds[k]? = some i := by
  have hlt := (List.getElem?_eq_some_iff.mp hi).1
  obtain ⟨g, hg, hmem⟩ := List.mem_flatMap.mp
    (c.attentionGroups_ids.mem_iff.mpr (List.mem_range.mpr hlt))
  have hspec := (c.attentionGroups_spec hg).2 i hmem
  rw [hi, Option.some_inj] at hspec
  exact ⟨g, hg, hspec.symm, List.mem_iff_getElem?.mp hmem⟩

theorem getCachedBlock_getElem? {x : BlockHash} {ids : List Nat} {row : HitRow}
    (h : pool.getCachedBlock x ids = some row) {k i : Nat} (hk : ids[k]? = some i) :
    ∃ b, row[k]? = some b ∧ pool.getCachedBlock x [i] = some [b] := by
  induction ids generalizing row k with
  | nil => cases hk
  | cons n ids ih =>
    simp only [getCachedBlock, Option.pure_def, Option.bind_eq_bind, Option.bind_eq_some_iff,
      Option.some_inj] at h
    obtain ⟨b, hb, bs, hbs, rfl⟩ := h
    cases k with
    | zero =>
      rw [List.getElem?_cons_zero, Option.some_inj] at hk
      subst hk
      refine ⟨b, rfl, ?_⟩
      simp [getCachedBlock, hb]
    | succ k => exact ih hbs hk

theorem validHit_column {rows : List HitRow} {k i : Nat}
    (h : CacheHit.Valid g.spec (c.lookup pool hashes g) rows) (hk : g.groupIds[k]? = some i) :
    ValidHit c pool hashes g.spec i (CacheHit.column rows k) := by
  intro j b hj hread
  rw [CacheHit.column, List.getElem?_map, Option.map_eq_some_iff] at hj
  obtain ⟨row, hrow, rfl⟩ := hj
  rw [CacheHit.column, List.length_map] at hread
  obtain ⟨x, hx, hit⟩ := h j row hrow hread (List.getElem?_eq_some_iff.mp hrow).1
  refine ⟨x, hx, ?_⟩
  have hcached : pool.getCachedBlock x g.groupIds = some row := by
    unfold CacheHit.Lookup.hit at hit
    split at hit
    · rename_i heq
      rw [← hit]
      exact heq
    · cases hit
  obtain ⟨b, hb, hget⟩ := getCachedBlock_getElem? hcached hk
  rw [List.getD_eq_getElem?_getD, hb]
  exact hget

theorem firstRead_of_isFullAttention {spec : KVCacheSpec} (h : spec.isFullAttention = true)
    (bs n : Nat) : CacheHit.firstRead spec bs n = 0 := by
  cases spec with
  | fullAttention a v w k => rfl
  | mlaAttention a d => rfl
  | slidingWindow a w => cases h
  | chunkedLocalAttention a k => cases h
  | mamba m => cases h
  | crossAttention a => cases h

theorem ValidHit.take {spec : KVCacheSpec} {i : Nat} {blocks : List BlockId}
    (hfull : spec.isFullAttention = true) (h : ValidHit c pool hashes spec i blocks) (n : Nat) :
    ValidHit c pool hashes spec i (blocks.take n) := by
  intro j b hj _
  rw [List.getElem?_take] at hj
  split at hj
  · refine h j b hj ?_
    rw [firstRead_of_isFullAttention hfull]
    exact Nat.zero_le j
  · cases hj

def resultList (c : KVCacheManagerConfig) (H : Int) (f : HitBlocks) (i : Nat) : List BlockId :=
  (truncateFull c H f i).getD []

theorem resultList_first (hgroups : c.attentionGroups = g₁ :: gs)
    (hfull : g₁.spec.isFullAttention = true) {rows : List HitRow} (h : Holds f g₁ rows) {k i H : Nat}
    (hk : g₁.groupIds[k]? = some i) :
    resultList c H f i = (CacheHit.column rows k).take (H / g₁.spec.blockSize) := by
  have hnat : ((H : Int) / (g₁.spec.blockSize : Int)).toNat = H / g₁.spec.blockSize :=
    Int.toNat_natCast (H / g₁.spec.blockSize)
  unfold resultList truncateFull
  simp only [hgroups, hfull, if_true, List.mem_of_getElem? hk, h k i hk, Option.map_some, hnat,
    Option.getD_some]

theorem resultList_other (hgroups : c.attentionGroups = g₁ :: gs)
    (hcut : g₁.spec.isFullAttention = false ∨ g ∈ gs) {rows : List HitRow} (h : Holds f g rows)
    {k i : Nat} {H : Int} (hk : g.groupIds[k]? = some i) :
    resultList c H f i = CacheHit.column rows k := by
  have hgs := groups_attentionGroups c
  rw [hgroups] at hgs
  have hsame : truncateFull c H f i = f i := by
    unfold truncateFull
    simp only [hgroups]
    split
    · rename_i hfull
      have hg : g ∈ gs := hcut.resolve_left (by rw [hfull]; nofun)
      exact if_neg fun hi => hgs.head.2 i hi g hg (List.mem_of_getElem? hk)
    · rfl
  rw [resultList, hsame, h k i hk]
  rfl

theorem hybridFind_of_hybridLoop {H : Nat}
    (h : hybridLoop c pool hashes (max + 2) max (fun _ => none) = .ok ((H : Int), f)) :
    hybridFind c pool hashes max =
      .ok ((List.range c.kvCacheGroups.length).map (resultList c H f), (H : Int)) := by
  unfold hybridFind
  rw [Int.toNat_natCast, h, Result.ok_bind]
  rfl

theorem length_column (rows : List HitRow) (k : Nat) : (CacheHit.column rows k).length = rows.length :=
  List.length_map _

theorem getElem?_resultLists {i : Nat} {spec : KVCacheSpec} (hi : c.kvCacheGroups[i]? = some spec)
    (F : Nat → List BlockId) :
    ((List.range c.kvCacheGroups.length).map F)[i]? = some (F i) := by
  have hlt := (List.getElem?_eq_some_iff.mp hi).1
  rw [List.getElem?_map, List.getElem?_range hlt]
  rfl

theorem isFullAttention_first (hgroups : c.attentionGroups = g₁ :: gs)
    (hg : g ∈ c.attentionGroups) (hfull : g.spec.isFullAttention = true) :
    g₁.spec.isFullAttention = true := by
  have hsorted := pairwise_attentionGroups c
  rw [hgroups] at hg hsorted
  rcases List.mem_cons.mp hg with rfl | hg
  · exact hfull
  · exact (List.pairwise_cons.mp hsorted).1 g hg hfull

theorem isFullAttention_second (hgroups : c.attentionGroups = g₁ :: g₂ :: gs) (hg : g ∈ g₂ :: gs)
    (hfull : g.spec.isFullAttention = true) : g₂.spec.isFullAttention = true := by
  have hsorted := pairwise_attentionGroups c
  rw [hgroups] at hsorted
  rcases List.mem_cons.mp hg with rfl | hg
  · exact hfull
  · exact (List.pairwise_cons.mp (List.pairwise_cons.mp hsorted).2).1 g hg hfull

variable {f' : HitBlocks} {H k i : Nat}

theorem Ends.holds (h : Ends c pool hashes L f H f') (hg : g ∈ c.attentionGroups)
    (hfull : g.spec.isFullAttention = true) {rows : List HitRow} (hrows : Holds f g rows) :
    Holds f' g rows := by
  intro k i hk
  rw [h.keep g hg hfull i (List.mem_of_getElem? hk)]
  exact hrows k i hk

theorem Ends.dvd (h : Ends c pool hashes L f H f') (hg : g ∈ c.attentionGroups) :
    g.spec.blockSize ∣ H :=
  (c.blockSize_dvd_lcm hg).trans h.aligned

theorem Ends.first_list (h : Ends c pool hashes L f H f') (hc : c.Hybrid)
    (hgroups : c.attentionGroups = g₁ :: gs) (hfull : g₁.spec.isFullAttention = true)
    {rows : List HitRow} (hrows : Holds f g₁ rows)
    (hvalid : CacheHit.Valid g₁.spec (c.lookup pool hashes g₁) rows)
    (hlen : L ≤ rows.length * g₁.spec.blockSize) (hk : g₁.groupIds[k]? = some i) :
    g₁.spec.blockSize * (resultList c H f' i).length = H ∧
      ValidHit c pool hashes g₁.spec i (resultList c H f' i) := by
  have hg₁ : g₁ ∈ c.attentionGroups := by
    rw [hgroups]
    exact List.mem_cons_self
  have hpos := (hc.blockSize g₁.spec (KVCacheManagerConfig.Hybrid.mem_kvCacheGroups hg₁)).1
  have hle : H / g₁.spec.blockSize ≤ rows.length := by
    rw [← Nat.mul_div_cancel rows.length hpos]
    exact Nat.div_le_div_right (h.le.trans hlen)
  rw [resultList_first hgroups hfull (h.holds hg₁ hfull hrows) hk, List.length_take, length_column,
    Nat.min_eq_left hle]
  exact ⟨Nat.mul_div_cancel' (h.dvd hg₁), (validHit_column hvalid hk).take hfull _⟩

/-- The lists agree exactly if nothing reduces the length after a second full attention group. -/
theorem hitsAgree_iff (pool : BlockPool) (hc : c.Hybrid)
    (hb : (∃ spec ∈ c.kvCacheGroups, spec.isFullAttention = true) ∨ c.Covered hashes max) :
    HitsAgree c pool hashes max ↔ LaterGroupsAccept c pool hashes max := by
  obtain ⟨g₁, g₂, gs, hgroups⟩ : ∃ g₁ g₂ gs, c.attentionGroups = g₁ :: g₂ :: gs := by
    have hseveral := hc.several
    match c.attentionGroups, hseveral with
    | g₁ :: g₂ :: gs, _ => exact ⟨g₁, g₂, gs, rfl⟩
  have hb : g₁.spec.isFullAttention = true ∨ c.Covered hashes max := by
    refine hb.imp_left ?_
    rintro ⟨spec, hspec, hfull⟩
    obtain ⟨i, hi⟩ := List.mem_iff_getElem?.mp hspec
    obtain ⟨g, hg, rfl, -⟩ := exists_group hi
    exact isFullAttention_first hgroups hg hfull
  obtain ⟨rows₁, rows₂, L, f, hfind₁, hfind₂, hfirst⟩ := firstPass_spec pool hc hgroups hb
  obtain ⟨H, f', hloop, hends⟩ := hybridLoop_of_firstPass hc hgroups hfirst
  have hfind := hybridFind_of_hybridLoop hloop
  have hmax : H ≤ max := hends.le.trans hfirst.pass.le
  have hg₂ : g₂ ∈ c.attentionGroups := by
    rw [hgroups]
    exact List.mem_cons_of_mem _ List.mem_cons_self
  rw [laterGroupsAccept_iff hgroups hfind₁ hfind₂]
  constructor
  · rintro ⟨lists, H', hok, -, hall⟩ hfull
    rw [hfind, Except.ok.injEq, Prod.mk.injEq, Int.natCast_inj] at hok
    obtain ⟨rfl, rfl⟩ := hok
    -- the list of the second group is not cut
    obtain ⟨hne, hspec⟩ := c.attentionGroups_spec hg₂
    obtain ⟨i, ids, hids⟩ := List.exists_cons_of_ne_nil hne
    have hk : g₂.groupIds[0]? = some i := by
      rw [hids]
      rfl
    have hi := hspec i (List.mem_of_getElem? hk)
    obtain ⟨-, blocks, hblocks, hlen, -⟩ := hall i g₂.spec hi
    rw [getElem?_resultLists hi, Option.some_inj,
      resultList_other hgroups (.inr List.mem_cons_self) (hends.holds hg₂ hfull hfirst.second) hk]
      at hblocks
    rw [← hblocks, length_column, Nat.mul_comm] at hlen
    have hle := hends.le
    have hle₂ := hfirst.le
    exact hfirst.eq_iff.mp (by omega)
  · intro hlater
    refine ⟨_, H, hfind, hmax, fun i spec hi => ?_⟩
    obtain ⟨g, hg, rfl, k, hk⟩ := exists_group hi
    refine ⟨hends.dvd hg, _, getElem?_resultLists hi _, ?_⟩
    cases hgf : g.spec.isFullAttention with
    | false =>
      obtain ⟨rows, hholds, hvalid, hlen⟩ := hends.other g hg hgf
      have hcut : g₁.spec.isFullAttention = false ∨ g ∈ g₂ :: gs := by
        rw [hgroups] at hg
        rcases List.mem_cons.mp hg with rfl | hg
        · exact .inl hgf
        · exact .inr hg
      rw [resultList_other hgroups hcut hholds hk, length_column, Nat.mul_comm]
      exact ⟨hlen, validHit_column hvalid hk⟩
    | true =>
      have hg' := hg
      rw [hgroups] at hg'
      rcases List.mem_cons.mp hg' with rfl | hmem
      · obtain ⟨rows, hholds, hvalid, hlo, -⟩ := hfirst.pass.found g hg (not_reused_none g)
        exact hends.first_list hc hgroups hgf hholds hvalid hlo hk
      · -- a full attention group after the first one: nothing may reduce the length
        have hfull₁ := isFullAttention_first hgroups hg hgf
        have hfull₂ := isFullAttention_second hgroups hmem hgf
        have hall := hlater hfull₂
        have hL := hfirst.eq_iff.mpr hall
        have hH : H = L := by
          refine hends.accepted fun x hx hxo => ?_
          rw [hgroups, List.mem_cons, List.mem_cons] at hx
          rcases hx with rfl | rfl | hx
          · rw [hfull₁] at hxo
            cases hxo
          · rw [hfull₂] at hxo
            cases hxo
          · rw [hL]
            exact hall x hx
        obtain ⟨rows, hholds, hvalid, hlo, hhi⟩ := hfirst.found g hmem
        rw [resultList_other hgroups (.inr hmem) (hends.holds hg hgf hholds) hk, length_column,
          Nat.mul_comm]
        exact ⟨by omega, validHit_column hvalid hk⟩

theorem twoFullGroups_hybrid : twoFullGroups.Hybrid where
  hashBlockSize := Nat.one_pos
  blockSize := by decide
  several := by decide
  sliding := by
    intro a w _ h
    cases h
  chunked := by
    intro a k h
    simp [twoFullGroups] at h
  cross := by decide

def filled : List KVOp := [.allocateSlots (fourTokens "a") 4 false 0 0 0 false]

def windowEvicted : List KVOp := filled ++ [.evictBlocks [9, 10, 11, 12]]

theorem hitsAgree_filled : ∃ s,
    runSteps (fun s op => op.step twoFullGroups s) twoFullGroups.init filled = .ok s ∧
    HitsAgree twoFullGroups s.blockPool (fourTokens "b").blockHashes 3 := by
  obtain ⟨s, hrun, hs⟩ := Result.exists_of_holds
    (x := runSteps (fun s op => op.step twoFullGroups s) twoFullGroups.init filled)
    (p := fun s => twoFullGroups.attentionGroups.all fun g =>
      AcceptsLength twoFullGroups s.blockPool (fourTokens "b").blockHashes g 3)
    (by decide +kernel)
  refine ⟨s, hrun, (hitsAgree_iff s.blockPool twoFullGroups_hybrid (.inl (by decide))).mpr ?_⟩
  have hall : ∀ g ∈ twoFullGroups.attentionGroups,
      AcceptsLength twoFullGroups s.blockPool (fourTokens "b").blockHashes g 3 := by
    simpa using hs
  intro g₁ g₂ gs rows₁ rows₂ hgroups hfull hfind₁ hfind₂ g hg
  rw [hgroups] at hall
  obtain ⟨rows₁', hfind₁', hlen₁⟩ := hall g₁ List.mem_cons_self
  rw [hfind₁] at hfind₁'
  cases hfind₁'
  rw [hlen₁] at hfind₂
  obtain ⟨rows₂', hfind₂', hlen₂⟩ := hall g₂ (List.mem_cons_of_mem _ List.mem_cons_self)
  rw [hfind₂] at hfind₂'
  cases hfind₂'
  rw [hlen₂]
  exact hall g (List.mem_cons_of_mem _ (List.mem_cons_of_mem _ hg))

/-- The second full attention group keeps three blocks at hit length 0. -/
theorem not_hitsAgree_windowEvicted : twoFullGroups.Hybrid ∧ ∃ s,
    runSteps (fun s op => op.step twoFullGroups s) twoFullGroups.init windowEvicted = .ok s ∧
    ¬ HitsAgree twoFullGroups s.blockPool (fourTokens "b").blockHashes 3 := by
  obtain ⟨s, hrun, hs⟩ := Result.exists_of_holds
    (x := runSteps (fun s op => op.step twoFullGroups s) twoFullGroups.init windowEvicted)
    (p := fun s => Result.holds
      (hybridFind twoFullGroups s.blockPool (fourTokens "b").blockHashes (3 : Nat))
      fun r => r.2 = 0 ∧ r.1.map List.length = [0, 3, 0])
    (by decide +kernel)
  refine ⟨twoFullGroups_hybrid, s, hrun, ?_⟩
  rintro ⟨lists, H, hok, -, hall⟩
  rw [hok] at hs
  obtain ⟨hH, hlen⟩ := of_decide_eq_true hs
  obtain ⟨-, blocks, hblocks, heq, -⟩ := hall 1 _ rfl
  have hthree : blocks.length = 3 := by
    have := congrArg (·[1]?) hlen
    simpa [hblocks] using this
  have heq : 1 * blocks.length = H := heq
  have hH : (H : Int) = 0 := hH
  omega

end KVCacheManager

end Vllm
