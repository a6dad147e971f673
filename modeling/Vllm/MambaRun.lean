import Vllm.KVRun
import Vllm.MambaSlots

namespace Vllm

open BlockPool SingleTypeKVCacheManager

structure CoveredCache where
  cache : KVCacheManager
  covered : Dict ReqId Int

namespace CoveredCache

variable (k : KVCacheManagerConfig)

def init : CoveredCache := ⟨k.init, Dict.empty⟩

def step (t : CoveredCache) : KVOp → Result CoveredCache
  | .allocateSlots request numNewTokens lookup external lookahead encoder delay => do
    let args ← KVOp.slotArgs k t.cache request lookup external lookahead encoder delay
    let (newBlocks, cache) ← t.cache.allocateSlots k request numNewTokens args
    let numTokens := KVCacheManager.totalComputedTokens k request args + numNewTokens
    let covered := if newBlocks.isSome then t.covered.set request.requestId numTokens else t.covered
    return { cache, covered }
  | .free requestId => .ok { cache := t.cache.free requestId, covered := t.covered.erase requestId }
  | op => do
    let cache ← op.step k t.cache
    return { t with cache }

/-- The calls as the scheduler makes them: a request starts without computed tokens and is looked up then
only; of the tokens of a step some may be rejected later. In align mode there are no external tokens. -/
def Follows (t : CoveredCache) : KVOp → Prop
  | .allocateSlots request _ lookup external _ _ _ =>
    external = 0 ∧ request.numTokens ≤ k.maxModelLen ∧
      match t.covered.get? request.requestId with
      | none => request.numComputedTokens = 0
      | some n => lookup = false ∧ request.numComputedTokens ≤ n
  | .removeSkippedBlocks requestId totalComputedTokens =>
    ∀ n ∈ t.covered.get? requestId, totalComputedTokens ≤ n
  | _ => True

def MovesOn (m : SingleTypeKVCacheManager) (requestId : ReqId) (covered total numTokens : Int) : Prop :=
  match m.kvCacheSpec with
  | .mamba spec => spec.mambaCacheMode = .align →
    Py.cdiv covered m.blockSize ≤ Py.cdiv numTokens m.blockSize ∧
      (Py.cdiv covered m.blockSize < Py.cdiv numTokens m.blockSize → m.Released spec requestId total)
  | _ => True

/-- Every later step of a request moves on. -/
def StepsMoveOn (t : CoveredCache) : KVOp → Prop
  | .allocateSlots request numNewTokens _ _ _ _ _ =>
    ∀ n ∈ t.covered.get? request.requestId, ∀ m ∈ t.cache.singleTypeManagers,
      MovesOn m request.requestId n (min request.numComputedTokens k.maxModelLen)
        (min request.numComputedTokens k.maxModelLen + numNewTokens)
  | _ => True

/-- No assertion of `allocate_new_blocks` fails, and an allocation that ends well keeps the state of the
request in every group in align mode. -/
def KeepsState (t : CoveredCache) : KVOp → Prop
  | .allocateSlots request numNewTokens lookup external lookahead encoder delay =>
    ∀ args, KVOp.slotArgs k t.cache request lookup external lookahead encoder delay = .ok args →
      Result.Avoids AlignAssertion (t.cache.allocateSlots k request numNewTokens args) ∧
      ∀ newBlocks cache, t.cache.allocateSlots k request numNewTokens args = .ok (some newBlocks, cache) →
        ∀ (i : Nat) (m : SingleTypeKVCacheManager) (spec : MambaSpec),
          t.cache.singleTypeManagers[i]? = some m → m.kvCacheSpec = .mamba spec →
          spec.mambaCacheMode = .align → ∃ m', cache.singleTypeManagers[i]? = some m' ∧
            StateKept spec.numSpeculativeBlocks (m.blocksOf request.requestId)
              (args.newComputedBlocks.getD i []) (m'.blocksOf request.requestId)
  | _ => True

instance (t : CoveredCache) : ∀ op, Decidable (Follows k t op)
  | .allocateSlots request _ lookup external _ _ _ =>
    match h : t.covered.get? request.requestId with
    | none => decidable_of_iff (external = 0 ∧ request.numTokens ≤ k.maxModelLen ∧
        request.numComputedTokens = 0) (by simp [Follows, h])
    | some n => decidable_of_iff (external = 0 ∧ request.numTokens ≤ k.maxModelLen ∧
        lookup = false ∧ request.numComputedTokens ≤ n) (by simp [Follows, h])
  | .removeSkippedBlocks requestId totalComputedTokens =>
    inferInstanceAs (Decidable (∀ n ∈ t.covered.get? requestId, totalComputedTokens ≤ n))
  | .getComputedBlocks _ | .cacheBlocks _ _ | .evictBlocks _ | .free _ | .resetPrefixCache
  | .getNumCommonPrefixBlocks _ | .takeNewBlockIds | .newStepStarts => isTrue trivial

instance (m : SingleTypeKVCacheManager) (spec : MambaSpec) (requestId : ReqId) (n : Int) :
    Decidable (m.Released spec requestId n) :=
  inferInstanceAs (Decidable (∀ j ∈ m.lastStateBlockIdx.get? requestId, _))

instance (m : SingleTypeKVCacheManager) (requestId : ReqId) (covered total numTokens : Int) :
    Decidable (MovesOn m requestId covered total numTokens) :=
  match h : m.kvCacheSpec with
  | .mamba spec => decidable_of_iff (spec.mambaCacheMode = .align →
      Py.cdiv covered m.blockSize ≤ Py.cdiv numTokens m.blockSize ∧
        (Py.cdiv covered m.blockSize < Py.cdiv numTokens m.blockSize → m.Released spec requestId total))
      (by simp [MovesOn, h])
  | .fullAttention .. | .mlaAttention .. | .chunkedLocalAttention .. | .slidingWindow .. | .crossAttention _ =>
    isTrue (by simp [MovesOn, h])

instance (t : CoveredCache) : ∀ op, Decidable (StepsMoveOn k t op)
  | .allocateSlots request numNewTokens _ _ _ _ _ =>
    inferInstanceAs (Decidable (∀ n ∈ t.covered.get? request.requestId, ∀ m ∈ t.cache.singleTypeManagers,
      MovesOn m request.requestId n (min request.numComputedTokens k.maxModelLen)
        (min request.numComputedTokens k.maxModelLen + numNewTokens)))
  | .getComputedBlocks _ | .cacheBlocks _ _ | .removeSkippedBlocks _ _ | .evictBlocks _ | .free _
  | .resetPrefixCache | .getNumCommonPrefixBlocks _ | .takeNewBlockIds | .newStepStarts => isTrue trivial

structure Inv (t : CoveredCache) : Prop where
  ok : t.cache.Ok k.toPoolConfig
  groups : KVCacheManager.SameGroups k.init t.cache
  align : t.cache.AlignGroups t.covered.get?

variable {k} {t t' : CoveredCache} {h : BlockHasher}

/-- The block sizes of the groups in align mode. -/
def AlignSizes (k : KVCacheManagerConfig) : Prop :=
  k.worldSize = 1 ∧ ∀ spec, .mamba spec ∈ k.kvCacheGroups → spec.mambaCacheMode = .align →
    spec.numSpeculativeBlocks < spec.blockSize

theorem Inv.manager (hinv : Inv k t) (hk : AlignSizes k) {i : Nat} {m : SingleTypeKVCacheManager}
    (hm : t.cache.singleTypeManagers[i]? = some m) {spec : MambaSpec} (hspec : m.kvCacheSpec = .mamba spec) :
    k.kvCacheGroups[i]? = some (.mamba spec) ∧ m.blockSize = spec.blockSize := by
  obtain ⟨m₀, hm₀, hspec₀, hsize₀⟩ := hinv.groups.manager hm
  simp only [KVCacheManagerConfig.init, List.getElem?_mapIdx, Option.map_eq_some_iff] at hm₀
  obtain ⟨s, hs, rfl⟩ := hm₀
  have hs' : s = .mamba spec := hspec₀.trans hspec
  subst hs'
  refine ⟨hs, hsize₀.symm.trans ?_⟩
  show k.managerBlockSize (.mamba spec) = spec.blockSize
  rw [KVCacheManagerConfig.managerBlockSize, if_neg (by rw [hk.1]; omega)]
  rfl

theorem Inv.next (hinv : Inv k t) (hok : t'.cache.Ok k.toPoolConfig)
    (hsame : KVCacheManager.SameGroups t.cache t'.cache)
    (hat : ∀ (i : Nat) (m : SingleTypeKVCacheManager) (spec : MambaSpec),
      t.cache.singleTypeManagers[i]? = some m → m.IsAlign spec →
        ∃ m', t'.cache.singleTypeManagers[i]? = some m' ∧ ∀ rid, m'.Covers spec rid (t'.covered.get? rid)) :
    Inv k t' where
  ok := hok
  groups := hinv.groups.trans hsame
  align :=
    { pos := fun m' hm' spec hspec hmode => by
        obtain ⟨i, hi⟩ := List.mem_iff_getElem?.mp hm'
        obtain ⟨m, hm, hspec', hsize⟩ := hsame.manager hi
        rw [← hsize]
        exact hinv.align.pos m (List.mem_of_getElem? hm) spec (hspec'.trans hspec) hmode
      covers := fun i m' spec hm' halign rid => by
        obtain ⟨m, hm, hspec, hsize⟩ := hsame.manager hm'
        obtain ⟨m'', hm'', hcovers⟩ :=
          hat i m spec hm ⟨hspec.trans halign.kvCacheSpec, halign.mode, hsize ▸ halign.pos⟩
        cases hm'.symm.trans hm''
        exact hcovers rid }

theorem Inv.mapManagers (hinv : Inv k t) {g : SingleTypeKVCacheManager → SingleTypeKVCacheManager}
    (hok : ({ t.cache with singleTypeManagers := t.cache.singleTypeManagers.map g } : KVCacheManager).Ok
      k.toPoolConfig)
    (hg : ∀ m rid, SameRequest rid m (g m)) :
    Inv k { t with cache := { t.cache with singleTypeManagers := t.cache.singleTypeManagers.map g } } := by
  refine hinv.next hok ?_ fun i m spec hm halign => ⟨g m, ?_, fun rid => ?_⟩
  · unfold KVCacheManager.SameGroups
    rw [List.map_map]
    exact List.map_congr_left fun m _ => KVCacheManager.groupOf_eq (hg m "").static
  · rw [List.getElem?_map, hm]
    rfl
  · exact (hinv.align.covers i m spec hm halign rid).congr (hg m rid)

theorem init_inv (hpos : 0 < k.numGpuBlocks) (hk : AlignSizes k) : Inv k (init k) where
  ok := KVCacheManager.init_ok hpos
  groups := .refl
  align :=
    { pos := fun m hm spec hspec hmode => by
        simp only [init, KVCacheManagerConfig.init, List.mem_mapIdx] at hm
        obtain ⟨i, hi, rfl⟩ := hm
        have hmem : KVCacheSpec.mamba spec ∈ k.kvCacheGroups := by
          rw [← show k.kvCacheGroups[i] = .mamba spec from hspec]
          exact List.getElem_mem hi
        have hsize : (k.newManager k.kvCacheGroups[i] i).blockSize = spec.blockSize := by
          show k.managerBlockSize k.kvCacheGroups[i] = spec.blockSize
          rw [show k.kvCacheGroups[i] = .mamba spec from hspec, KVCacheManagerConfig.managerBlockSize,
            if_neg (by rw [hk.1]; omega)]
          rfl
        rw [hsize]
        exact Nat.lt_of_le_of_lt (Nat.zero_le _) (hk.2 spec hmem hmode)
      covers := fun i m spec hm halign rid => by
        simp only [init, KVCacheManagerConfig.init, List.getElem?_mapIdx, Option.map_eq_some_iff] at hm
        obtain ⟨s, -, rfl⟩ := hm
        exact ⟨List.not_mem_nil, rfl, rfl⟩ }

theorem Inv.slotsReady (hinv : Inv k t) (hk : AlignSizes k) {request : Request} {new lookahead encoder : Nat}
    {lookup delay : Bool} {external : Nat} {args : KVCacheManager.SlotArgs} (hpos : 0 < request.numTokens)
    (hnew : 0 < new)
    (hfollows : Follows k t (.allocateSlots request new lookup external lookahead encoder delay))
    (hmoves : StepsMoveOn k t (.allocateSlots request new lookup external lookahead encoder delay))
    (hargs : KVOp.slotArgs k t.cache request lookup external lookahead encoder delay = .ok args)
    {i : Nat} {m : SingleTypeKVCacheManager} {spec : MambaSpec}
    (hm : t.cache.singleTypeManagers[i]? = some m) (halign : m.IsAlign spec) :
    KVCacheManager.SlotsReady k t.covered.get? request args new m spec
      (args.newComputedBlocks.getD i []) := by
  obtain ⟨rfl, hlen, hmatch⟩ := hfollows
  unfold KVOp.slotArgs at hargs
  dsimp only at hargs
  cases hcov : t.covered.get? request.requestId with
  | none =>
    rw [hcov] at hmatch
    refine ⟨fun n hn => absurd (hcov.symm.trans hn).symm (Option.some_ne_none n), fun _ => ?_⟩
    unfold KVCacheManager.totalComputedTokens
    split at hargs
    · simp only [Result.bind_eq_ok, Prod.exists, Result.pure_eq_ok] at hargs
      obtain ⟨hits, n, hget, rfl⟩ := hargs
      obtain ⟨hn, hlt, hhit⟩ := KVCacheManager.getComputedBlocks_mamba hinv.ok.inv.hash hk.1 hpos hget
      obtain ⟨hgroup, hsize⟩ := hinv.manager hk hm halign.kvCacheSpec
      refine ⟨?_, ?_⟩
      · dsimp only
        omega
      · rw [hsize, hmatch]
        simpa using hhit i spec hgroup
    · cases hargs
      refine ⟨?_, .inl ⟨rfl, ?_⟩⟩
      · dsimp only
        omega
      · dsimp only
        omega
  | some n =>
    rw [hcov] at hmatch
    obtain ⟨rfl, hle⟩ := hmatch
    cases hargs
    refine ⟨fun n' hn' => ?_, fun hnone => absurd (hcov.symm.trans hnone) (Option.some_ne_none n)⟩
    rw [hcov] at hn'
    cases hn'
    have htotal : KVCacheManager.totalComputedTokens k request
        { numLookaheadTokens := lookahead, numExternalComputedTokens := (0 : Nat), delayCacheBlocks := delay,
          numEncoderTokens := encoder } = min request.numComputedTokens k.maxModelLen := by
      unfold KVCacheManager.totalComputedTokens
      dsimp only
      omega
    have hm' := hmoves n hcov m (List.mem_of_getElem? hm)
    unfold MovesOn at hm'
    rw [halign.kvCacheSpec] at hm'
    obtain ⟨hforward, hreleased⟩ := hm' halign.mode
    rw [htotal]
    exact ⟨rfl, by omega, hforward, hreleased⟩

theorem Inv.slotArgs (hinv : Inv k t) (hcf : h.CollisionFree) {request : Request} {new lookahead encoder : Nat}
    {lookup delay : Bool} {args : KVCacheManager.SlotArgs}
    (hop : (KVOp.allocateSlots request new lookup 0 lookahead encoder delay).Proper h)
    (hargs : KVOp.slotArgs k t.cache request lookup 0 lookahead encoder delay = .ok args) :
    args.Counts request new ∧ (∀ i, HitOk k.toPoolConfig (args.newComputedBlocks.getD i [])) ∧
      args.numExternalComputedTokens = 0 := by
  obtain ⟨hr, hpos, hcomputed⟩ := hop
  obtain ⟨hcounts, hhits⟩ := hinv.ok.slotArgs hcf hr hpos hcomputed new hargs
  refine ⟨hcounts, hhits, ?_⟩
  unfold KVOp.slotArgs at hargs
  dsimp only at hargs
  split at hargs
  · simp only [Result.bind_eq_ok, Prod.exists, Result.pure_eq_ok] at hargs
    obtain ⟨hits, n, -, rfl⟩ := hargs
    rfl
  · cases hargs
    rfl

theorem allocateSlots_zero {s : KVCacheManager} {request : Request} {args : KVCacheManager.SlotArgs}
    (hext : args.numExternalComputedTokens = 0) : ∃ msg, s.allocateSlots k request (0 : Nat) args =
      .error (.valueError msg) := by
  unfold KVCacheManager.allocateSlots
  rw [if_pos ⟨rfl, hext⟩]
  exact ⟨_, rfl⟩

theorem Inv.allocateSlots (hinv : Inv k t) (hk : AlignSizes k) (hcf : h.CollisionFree) {request : Request}
    {new lookahead encoder external : Nat} {lookup delay : Bool}
    (hop : (KVOp.allocateSlots request new lookup external lookahead encoder delay).Proper h)
    (hfollows : Follows k t (.allocateSlots request new lookup external lookahead encoder delay))
    (hmoves : StepsMoveOn k t (.allocateSlots request new lookup external lookahead encoder delay))
    (hstep : step k t (.allocateSlots request new lookup external lookahead encoder delay) = .ok t') :
    Inv k t' := by
  have hext := hfollows.1
  subst hext
  simp only [step, Result.bind_eq_ok, Prod.exists, Result.pure_eq_ok] at hstep
  obtain ⟨args, hargs, ret, s', hslots, rfl⟩ := hstep
  obtain ⟨hcounts, hhits, hnone⟩ := hinv.slotArgs hcf hop hargs
  rcases Nat.eq_zero_or_pos new with rfl | hnew
  · obtain ⟨msg, herr⟩ := @allocateSlots_zero k t.cache request args hnone
    rw [herr] at hslots
    cases hslots
  · have hfit : t.cache.HitsFit request args := by
      intro i m hm hlt
      rw [hnone] at hlt
      exact absurd hlt (Int.lt_irrefl 0)
    obtain ⟨hok, hsame⟩ := hinv.ok.allocateSlots hcounts hhits (fun _ => hfit) hslots
    refine hinv.next hok hsame fun i m spec hm halign => ?_
    obtain ⟨m', hm', -, hrefused, hdone⟩ := hinv.ok.allocateSlots_at hinv.align hcounts hhits hnone hm halign
      (hinv.slotsReady hk hop.2.1 hnew hfollows hmoves hargs hm halign) hslots
    refine ⟨m', hm', fun rid => ?_⟩
    cases ret with
    | none => exact hrefused rfl rid
    | some blocks =>
      obtain ⟨hother, hown, -⟩ := hdone (Option.some_ne_none blocks)
      dsimp only [Option.isSome_some]
      rw [if_pos rfl, Dict.get?_set]
      split
      · rename_i heq
        exact heq ▸ hown
      · rename_i hne
        exact hother rid (Ne.symm hne)

theorem Inv.free (hinv : Inv k t) (rid : ReqId) :
    Inv k { cache := t.cache.free rid, covered := t.covered.erase rid } := by
  obtain ⟨hok, hsame⟩ : (t.cache.free rid).Ok k.toPoolConfig ∧ KVCacheManager.SameGroups t.cache (t.cache.free rid) :=
    hinv.ok.free
  refine hinv.next hok hsame fun i m spec hm halign => ?_
  have hrun : t.cache.eachManager (fun _ p m => .ok ((), m.free p rid)) =
      .ok (t.cache.singleTypeManagers.map fun _ => (), t.cache.free rid) := by
    unfold KVCacheManager.eachManager
    rw [KVCacheManager.freeFrom_eq_forManagers]
    rfl
  obtain ⟨rest, p, b, p', m', -, hm₁, hm'⟩ := hinv.ok.eachManager_at (fun (_ : True) hown hrun => by
    cases hrun
    exact hown.free) (fun _ _ _ => trivial) hrun hm
  rw [Except.ok.injEq, Prod.mk.injEq] at hm₁
  have hfree : m' = (m.free p rid).2 := by rw [hm₁.2]
  subst hfree
  refine ⟨_, hm', fun rid' => ?_⟩
  dsimp only
  rw [Dict.get?_erase]
  split
  · rename_i heq
    exact heq ▸ halign.free
  · rename_i hne
    exact (hinv.align.covers i m spec hm halign rid').congr (halign.free_other (Ne.symm hne))

theorem Inv.step (hinv : Inv k t) (hk : AlignSizes k) (hcf : h.CollisionFree) {op : KVOp} (hop : op.Proper h)
    (hfollows : Follows k t op) (hmoves : StepsMoveOn k t op) (hstep : step k t op = .ok t') : Inv k t' := by
  cases op with
  | getComputedBlocks request =>
    simp only [CoveredCache.step, KVOp.step, Result.bind_eq_ok, Result.pure_eq_ok] at hstep
    obtain ⟨s, ⟨-, -, rfl⟩, rfl⟩ := hstep
    exact hinv
  | allocateSlots request new lookup external lookahead encoder delay =>
    exact hinv.allocateSlots hk hcf hop hfollows hmoves hstep
  | cacheBlocks request numComputedTokens =>
    simp only [CoveredCache.step, KVOp.step, Result.bind_eq_ok, Result.pure_eq_ok] at hstep
    obtain ⟨s, hs, rfl⟩ := hstep
    unfold KVCacheManager.cacheBlocks at hs
    split at hs
    · obtain ⟨hok, hsame⟩ := hinv.ok.coordinatorCacheBlocks hs
      refine hinv.next hok hsame fun i m spec hm halign => ?_
      obtain ⟨m', hm', hat⟩ := hinv.ok.coordinatorCacheBlocks_at hs hm halign
      exact ⟨m', hat, fun rid => (hinv.align.covers i m spec hm halign rid).congr (hm' rid)⟩
    · cases hs
      exact hinv
  | removeSkippedBlocks requestId totalComputedTokens =>
    simp only [CoveredCache.step, KVOp.step, Result.bind_eq_ok, Result.pure_eq_ok] at hstep
    obtain ⟨s, hs, rfl⟩ := hstep
    obtain ⟨hok, hsame⟩ := hinv.ok.removeSkippedBlocks hs
    refine hinv.next hok hsame fun i m spec hm halign => ?_
    obtain ⟨m', hm', -, hat⟩ := hinv.ok.removeSkippedBlocks_covers hs hm halign
      (hinv.align.covers i m spec hm halign) hfollows
    exact ⟨m', hm', hat⟩
  | evictBlocks blockIds =>
    simp only [CoveredCache.step, KVOp.step, Result.bind_eq_ok, Result.pure_eq_ok] at hstep
    obtain ⟨s, hs, rfl⟩ := hstep
    have hok := hinv.ok.evictBlocks hs
    simp only [KVCacheManager.evictBlocks, Result.bind_eq_ok, Result.pure_eq_ok] at hs
    obtain ⟨p, -, rfl⟩ := hs
    exact hinv.next hok .refl fun i m spec hm halign => ⟨m, hm, hinv.align.covers i m spec hm halign⟩
  | free requestId =>
    cases hstep
    exact hinv.free requestId
  | resetPrefixCache =>
    cases hstep
    exact hinv.next hinv.ok.resetPrefixCache .refl fun i m spec hm halign =>
      ⟨m, hm, hinv.align.covers i m spec hm halign⟩
  | getNumCommonPrefixBlocks requestId =>
    cases hstep
    have hok : (t.cache.getNumCommonPrefixBlocks k requestId).2.Ok k.toPoolConfig :=
      hinv.ok.getNumCommonPrefixBlocks
    unfold KVCacheManager.getNumCommonPrefixBlocks at hok ⊢
    by_cases hcaching : k.enableCaching = true
    · rw [if_pos hcaching] at hok ⊢
      simp only [List.map_map] at hok ⊢
      refine hinv.mapManagers hok fun m rid => ?_
      simp only [Function.comp, SingleTypeKVCacheManager.getNumCommonPrefixBlocks]
      split
      · exact .setBlocks fun heq => by rw [heq]
      · exact .refl
    · rw [if_neg hcaching]
      exact hinv
  | takeNewBlockIds =>
    cases hstep
    exact hinv.mapManagers hinv.ok.takeNewBlockIds fun m rid => ⟨⟨rfl, rfl, rfl⟩, Iff.rfl, rfl, rfl⟩
  | newStepStarts =>
    cases hstep
    refine hinv.mapManagers hinv.ok.newStepStarts fun m rid => ?_
    unfold SingleTypeKVCacheManager.newStepStarts
    split
    · exact ⟨⟨rfl, rfl, rfl⟩, Iff.rfl, rfl, rfl⟩
    · exact .refl

theorem Inv.keepsState (hinv : Inv k t) (hk : AlignSizes k) (hcf : h.CollisionFree) {op : KVOp}
    (hop : op.Proper h) (hfollows : Follows k t op) (hmoves : StepsMoveOn k t op) : KeepsState k t op := by
  cases op with
  | allocateSlots request new lookup external lookahead encoder delay =>
    intro args hargs
    have hext := hfollows.1
    subst hext
    obtain ⟨hcounts, hhits, hnone⟩ := hinv.slotArgs hcf hop hargs
    rcases Nat.eq_zero_or_pos new with rfl | hnew
    · obtain ⟨msg, herr⟩ := @allocateSlots_zero k t.cache request args hnone
      rw [herr]
      exact ⟨by simp [AlignAssertion], nofun⟩
    · have hready : ∀ (i : Nat) (m : SingleTypeKVCacheManager) (spec : MambaSpec),
          t.cache.singleTypeManagers[i]? = some m → m.IsAlign spec →
          KVCacheManager.SlotsReady k t.covered.get? request args new m spec (args.newComputedBlocks.getD i []) :=
        fun i m spec hm halign => hinv.slotsReady hk hop.2.1 hnew hfollows hmoves hargs hm halign
      refine ⟨hinv.ok.allocateSlots_avoids hinv.align hcounts hhits hnone hready, ?_⟩
      intro blocks cache hslots i m spec hm hspec hmode
      have halign : m.IsAlign spec :=
        ⟨hspec, hmode, hinv.align.pos m (List.mem_of_getElem? hm) spec hspec hmode⟩
      obtain ⟨m', hm', -, -, hdone⟩ := hinv.ok.allocateSlots_at hinv.align hcounts hhits hnone hm halign
        (hready i m spec hm halign) hslots
      exact ⟨m', hm', (hdone nofun).2.2⟩
  | getComputedBlocks _ | cacheBlocks _ _ | removeSkippedBlocks _ _ | evictBlocks _ | free _
  | resetPrefixCache | getNumCommonPrefixBlocks _ | takeNewBlockIds | newStepStarts => trivial

/-- In every run whose steps all move on, every allocation keeps the state of its request within the
budget. -/
theorem keepsState_of_stepsMoveOn (hcf : h.CollisionFree) (hpos : 0 < k.numGpuBlocks) (hk : AlignSizes k)
    {ops : List KVOp} (hops : ∀ op ∈ ops, op.Proper h) (hfollows : Guarded (step k) (Follows k) (init k) ops)
    (hmoves : Guarded (step k) (StepsMoveOn k) (init k) ops) :
    Guarded (step k) (KeepsState k) (init k) ops := by
  have hstep : ∀ t op t', Inv k t → op.Proper h ∧ Follows k t op ∧ StepsMoveOn k t op →
      step k t op = .ok t' → Inv k t' :=
    fun t op t' hinv hop hok => hinv.step hk hcf hop.1 hop.2.1 hop.2.2 hok
  have hkeep : ∀ t op, Inv k t → op.Proper h ∧ Follows k t op ∧ StepsMoveOn k t op → KeepsState k t op :=
    fun t op hinv hop => hinv.keepsState hk hcf hop.1 hop.2.1 hop.2.2
  exact guarded_of_inv hstep hkeep (init_inv hpos hk) ((hfollows.and hmoves).and_mem hops)

def oneMambaGroup : KVCacheManagerConfig where
  numGpuBlocks := 24
  enableCaching := true
  hashBlockSize := 4
  maxModelLen := 64
  useEagle := false
  kvCacheGroups :=
    [.mamba { blockSize := 4, shapes := [[1]], dtypes := [.float16], mambaCacheMode := .align,
              numSpeculativeBlocks := 2 }]

theorem alignSizes_oneMambaGroup : AlignSizes oneMambaGroup := by
  refine ⟨rfl, fun spec hspec _ => ?_⟩
  rw [oneMambaGroup, List.mem_singleton, KVCacheSpec.mamba.injEq] at hspec
  rw [hspec]
  decide

def decoding (outputTokenIds : List Token) (n : Nat) : Request :=
  { (RequestParams.init (some fourTokenHasher) { requestId := "a", promptTokenIds := some [7, 8] }).appendOutputTokenIds
      (some fourTokenHasher) outputTokenIds with numComputedTokens := n }

def allocation (outputTokenIds : List Token) (numComputedTokens numNewTokens : Nat) : KVOp :=
  .allocateSlots (decoding outputTokenIds numComputedTokens) numNewTokens false 0 0 0 false

theorem allocation_proper (outputTokenIds : List Token) (n new : Nat) :
    (allocation outputTokenIds n new).Proper fourTokenHasher := by
  refine ⟨(Request.linked_init _).appendOutputTokenIds outputTokenIds, ?_, Int.natCast_nonneg n⟩
  show 0 < ([7, 8] ++ outputTokenIds).length
  rw [List.length_append]
  exact Nat.lt_of_lt_of_le Nat.two_pos (Nat.le_add_right _ _)

def draftsEveryStep : List KVOp :=
  [allocation [] 0 2, allocation [9] 2 3, allocation [9, 10] 3 3, allocation [9, 10, 11, 12] 5 3,
   allocation [9, 10, 11, 12, 13, 14, 15] 8 3]

theorem keepsState_draftsEveryStep :
    Guarded (step oneMambaGroup) (KeepsState oneMambaGroup) (init oneMambaGroup) draftsEveryStep :=
  keepsState_of_stepsMoveOn (BlockHasher.coded_collisionFree 4 (by decide)) (by decide) alignSizes_oneMambaGroup
    (by
      intro op hop
      simp only [draftsEveryStep, List.mem_cons, List.not_mem_nil, or_false] at hop
      rcases hop with rfl | rfl | rfl | rfl | rfl <;> exact allocation_proper _ _ _)
    (by decide +kernel) (by decide +kernel)

/-- After both drafts of a step are rejected, the next step has none and ends in an earlier block. -/
def noDraftsLater : List KVOp := [allocation [] 0 2, allocation [9] 2 3, allocation [9, 10] 3 1]

def draftsAccepted : List KVOp :=
  [allocation [] 0 2, allocation [9] 2 3, allocation [9, 10] 3 3, allocation [9, 10, 11, 12, 13] 6 3]

/-- An assertion fails in the one run, and in the other the request holds a block more than budgeted. -/
theorem not_keepsState_noDraftsLater :
    (∀ op ∈ noDraftsLater ++ draftsAccepted, op.Proper fourTokenHasher) ∧
    Guarded (step oneMambaGroup) (Follows oneMambaGroup) (init oneMambaGroup) noDraftsLater ∧
    Guarded (step oneMambaGroup) (Follows oneMambaGroup) (init oneMambaGroup) draftsAccepted ∧
    ¬ Guarded (step oneMambaGroup) (KeepsState oneMambaGroup) (init oneMambaGroup) noDraftsLater ∧
    ¬ Guarded (step oneMambaGroup) (KeepsState oneMambaGroup) (init oneMambaGroup) draftsAccepted := by
  refine ⟨?_, by decide +kernel, by decide +kernel, fun h => ?_, fun h => ?_⟩
  · intro op hop
    simp only [noDraftsLater, draftsAccepted, List.cons_append, List.nil_append, List.mem_cons,
      List.not_mem_nil, or_false] at hop
    rcases hop with rfl | rfl | rfl | rfl | rfl | rfl | rfl <;> exact allocation_proper _ _ _
  · obtain ⟨t, hrun, ht⟩ := Result.exists_of_holds
      (x := runSteps (step oneMambaGroup) (init oneMambaGroup) [allocation [] 0 2, allocation [9] 2 3])
      (p := fun t => (t.cache.allocateSlots oneMambaGroup (decoding [9, 10] 3) (1 : Nat)).raises
        (.assertionError "num_required_blocks"))
      (by decide +kernel)
    have hrun' : Guarded (step oneMambaGroup) (KeepsState oneMambaGroup) (init oneMambaGroup)
      ([allocation [] 0 2, allocation [9] 2 3] ++ [allocation [9, 10] 3 1]) := h
    exact ((hrun'.last hrun) _ rfl).1 _ (Result.eq_error_of_raises ht) (.inl rfl)
  · obtain ⟨t, hrun, ht⟩ := Result.exists_of_holds
      (x := runSteps (step oneMambaGroup) (init oneMambaGroup)
        [allocation [] 0 2, allocation [9] 2 3, allocation [9, 10] 3 3])
      (p := fun t => t.cache.singleTypeManagers.map (·.kvCacheSpec) = oneMambaGroup.kvCacheGroups ∧
        (t.cache.allocateSlots oneMambaGroup (decoding [9, 10, 11, 12, 13] 6) (3 : Nat)).holds
          fun r => r.1.isSome && (r.2.singleTypeManagers.map fun m =>
            ((m.blocksOf "a").filter (· ≠ nullBlock)).length) = [5])
      (by decide +kernel)
    have hrun' : Guarded (step oneMambaGroup) (KeepsState oneMambaGroup) (init oneMambaGroup)
      ([allocation [] 0 2, allocation [9] 2 3, allocation [9, 10] 3 3] ++
        [allocation [9, 10, 11, 12, 13] 6 3]) := h
    rw [decide_eq_true_eq] at ht
    obtain ⟨hspecs, hslots⟩ := ht
    obtain ⟨⟨blocks, cache⟩, hslots, hcount⟩ := Result.exists_of_holds hslots
    rw [Bool.and_eq_true, decide_eq_true_eq] at hcount
    obtain ⟨blocks, rfl⟩ := Option.isSome_iff_exists.mp hcount.1
    obtain ⟨m, hm, hspec⟩ := List.map_eq_singleton_iff.mp hspecs
    obtain ⟨m', hm', hkept⟩ := ((hrun'.last hrun) _ rfl).2 blocks cache hslots 0 m _ (by rw [hm]; rfl) hspec rfl
    have hfive : (cache.singleTypeManagers.map fun m =>
        ((m.blocksOf "a").filter (· ≠ nullBlock)).length)[0]? = some 5 := by
      rw [hcount.2]
      rfl
    rw [List.getElem?_map, hm', Option.map_some, Option.some_inj] at hfive
    have hbudget : ((m'.blocksOf "a").filter (· ≠ nullBlock)).length ≤ 2 + 2 := hkept.budget
    omega

end CoveredCache

end Vllm
