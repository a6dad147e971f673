import Vllm.MambaHits

namespace Vllm

open BlockPool SingleTypeKVCacheManager

namespace KVCacheManager

variable {c : PoolConfig} {k : KVCacheManagerConfig} {s s' s₁ s₂ s₃ : KVCacheManager} {rid rid' : ReqId}
variable {i : Nat} {m m' : SingleTypeKVCacheManager} {spec : MambaSpec}

/-! What the group at one index sees of the parts of `allocate_slots`. -/

theorem Ok.removeSkippedBlocks_at (h : s.Ok c) {n : Int} (hok : s.removeSkippedBlocks rid n = .ok s')
    (hm : s.singleTypeManagers[i]? = some m) :
    ∃ p p' m', m.removeSkippedBlocks p rid n = .ok (p', m') ∧ s'.singleTypeManagers[i]? = some m' := by
  simp only [KVCacheManager.removeSkippedBlocks, Result.bind_eq_ok, Prod.exists, Result.pure_eq_ok] at hok
  obtain ⟨bs, s₁, hok, rfl⟩ := hok
  obtain ⟨rest, p, b, p', m', -, hrun, hm'⟩ := h.eachManager_at (fun (_ : True) hown hrun => by
    simp only [Result.bind_eq_ok, Prod.exists, Result.pure_eq_ok, Prod.mk.injEq] at hrun
    obtain ⟨q, m₁, hrun, -, rfl, rfl⟩ := hrun
    exact hown.removeSkippedBlocks hrun) (fun _ _ _ => trivial) hok hm
  simp only [Result.bind_eq_ok, Prod.exists, Result.pure_eq_ok, Prod.mk.injEq] at hrun
  obtain ⟨q, m₁, hrun, -, rfl, rfl⟩ := hrun
  exact ⟨p, q, m₁, hrun, hm'⟩

theorem Ok.getNumBlocksToAllocate_at (h : s.Ok k.toPoolConfig) {hits : List (List BlockId)}
    {numTokens enc total main n : Int}
    (hok : s.getNumBlocksToAllocate k rid numTokens hits enc total main = .ok (n, s'))
    (hm : s.singleTypeManagers[i]? = some m) (halign : m.IsAlign spec) :
    ∃ m', (∀ rid, SameRequest rid m m') ∧ s'.singleTypeManagers[i]? = some m' := by
  simp only [KVCacheManager.getNumBlocksToAllocate, Result.bind_eq_ok, Prod.exists, Result.pure_eq_ok,
    Prod.mk.injEq] at hok
  obtain ⟨bs, s₁, hok, -, rfl⟩ := hok
  obtain ⟨rest, p, b, p', m', -, hrun, hm'⟩ := h.eachManager_at (fun (_ : True) hown hrun => by
    split at hrun
    all_goals
      simp only [Result.bind_eq_ok, Prod.exists, Result.pure_eq_ok, Prod.mk.injEq] at hrun
      obtain ⟨n₁, m₁, hrun, -, rfl, rfl⟩ := hrun
      exact hown.getNumBlocksToAllocate hrun) (fun _ _ _ => trivial) hok hm
  refine ⟨m', fun _ => ?_, hm'⟩
  split at hrun
  all_goals
    simp only [Result.bind_eq_ok, Prod.exists, Result.pure_eq_ok, Prod.mk.injEq] at hrun
    obtain ⟨n₁, m₁, hrun, -, -, rfl⟩ := hrun
    exact halign.getNumBlocksToAllocate hrun

theorem Ok.allocateNewComputedBlocks_at (h : s.Ok k.toPoolConfig) {hits : List (List BlockId)} {n : Int}
    (hhits : ∀ i, HitOk k.toPoolConfig (hits.getD i []))
    (hok : s.allocateNewComputedBlocks k rid hits n 0 = .ok s') (hm : s.singleTypeManagers[i]? = some m) :
    ∃ p p' m', m.allocateNewComputedBlocks k.toPoolConfig p rid (hits.getD i []) n 0 = .ok (p', m') ∧
      s'.singleTypeManagers[i]? = some m' := by
  simp only [KVCacheManager.allocateNewComputedBlocks, Result.bind_eq_ok, Prod.exists,
    Result.pure_eq_ok] at hok
  obtain ⟨bs, s₁, hok, rfl⟩ := hok
  obtain ⟨rest, p, b, p', m', -, hrun, hm'⟩ := h.eachManager_at (fun (_ : True) hown hrun => by
    simp only [Result.bind_eq_ok, Prod.exists, Result.pure_eq_ok, Prod.mk.injEq] at hrun
    obtain ⟨q, m₁, hrun, -, rfl, rfl⟩ := hrun
    exact hown.allocateNewComputedBlocks (hhits _) (fun hlt => absurd hlt (Int.lt_irrefl 0)) hrun)
    (fun _ _ _ => trivial) hok hm
  simp only [Result.bind_eq_ok, Prod.exists, Result.pure_eq_ok, Prod.mk.injEq] at hrun
  obtain ⟨q, m₁, hrun, -, rfl, rfl⟩ := hrun
  exact ⟨p, q, m₁, hrun, hm'⟩

theorem Ok.allocateNewBlocks_at (h : s.Ok k.toPoolConfig) {n main enc : Int} (hmain : 0 ≤ main)
    {ret : List (List BlockId)} (hok : s.allocateNewBlocks k rid n main enc = .ok (ret, s'))
    (hm : s.singleTypeManagers[i]? = some m) (halign : m.IsAlign spec) :
    ∃ rest p new p' m', Owned k.toPoolConfig rest p m ∧
      m.alignAllocateNewBlocks k.toPoolConfig p spec rid main = .ok (new, p', m') ∧
      Owned k.toPoolConfig rest p' m' ∧ s'.singleTypeManagers[i]? = some m' := by
  obtain ⟨rest, p, b, p', m', hown, hrun, hm'⟩ := h.eachManager_at
    (fun (_ : True) hown hrun => hown.allocateNewBlocks hmain hrun) (fun _ _ _ => trivial) hok hm
  rw [halign.allocateNewBlocks_eq] at hrun
  exact ⟨rest, p, b, p', m', hown, hrun, (hown.alignAllocateNewBlocks halign.kvCacheSpec halign.mode hmain hrun).1,
    hm'⟩

theorem Ok.coordinatorCacheBlocks_at (h : s.Ok k.toPoolConfig) {request : Request} {n : Int}
    (hok : s.coordinatorCacheBlocks k request n = .ok s') (hm : s.singleTypeManagers[i]? = some m)
    (halign : m.IsAlign spec) : ∃ m', (∀ rid, SameRequest rid m m') ∧ s'.singleTypeManagers[i]? = some m' := by
  simp only [KVCacheManager.coordinatorCacheBlocks, Result.bind_eq_ok, Prod.exists, Result.pure_eq_ok] at hok
  obtain ⟨bs, s₁, hok, rfl⟩ := hok
  obtain ⟨rest, p, b, p', m', -, hrun, hm'⟩ := h.eachManager_at (fun (_ : True) hown hrun => by
    simp only [Result.bind_eq_ok, Prod.exists, Result.pure_eq_ok, Prod.mk.injEq] at hrun
    obtain ⟨q, m₁, hrun, -, rfl, rfl⟩ := hrun
    exact hown.cacheBlocks hrun) (fun _ _ _ => trivial) hok hm
  simp only [Result.bind_eq_ok, Prod.exists, Result.pure_eq_ok, Prod.mk.injEq] at hrun
  obtain ⟨q, m₁, hrun, -, rfl, rfl⟩ := hrun
  exact ⟨m₁, fun _ => halign.cacheBlocks hrun, hm'⟩

variable {request : Request} {args : SlotArgs}

theorem Ok.addComputedBlocks_at (h : s.Ok k.toPoolConfig)
    (hhits : ∀ i, HitOk k.toPoolConfig (args.newComputedBlocks.getD i []))
    (hext : args.numExternalComputedTokens = 0) (hok : s.addComputedBlocks k request args = .ok s')
    (hm : s.singleTypeManagers[i]? = some m) (halign : m.IsAlign spec) :
    ∃ m', s'.singleTypeManagers[i]? = some m' ∧ SameStatic m m' ∧
      (∀ rid ≠ request.requestId, SameRequest rid m m') ∧
      (args.newComputedBlocks = [] → SameRequest request.requestId m m') ∧
      (m.Unstarted request.requestId [] → MambaHit m.blockSize (args.newComputedBlocks.getD i [])
        (request.numComputedTokens + args.numNewComputedTokens) →
        m'.Unstarted request.requestId (args.newComputedBlocks.getD i [])) := by
  unfold KVCacheManager.addComputedBlocks at hok
  rw [hext] at hok
  split at hok
  · rename_i hany
    obtain ⟨p, p', m', hrun, hm'⟩ := h.allocateNewComputedBlocks_at hhits hok hm
    have hstatic : SameStatic m m' := by
      rcases halign.allocateNewComputedBlocks_eq_ok hrun with ⟨-, rfl⟩ | ⟨-, n, rfl⟩
      · exact .refl
      · exact ⟨rfl, rfl, rfl⟩
    refine ⟨m', hm', hstatic, fun rid hne => halign.allocateNewComputedBlocks_other hne hrun, ?_,
      fun hun hhit => (hun.allocateNewComputedBlocks halign hhit hrun).1⟩
    intro hnil
    rw [hnil] at hany
    simp at hany
  · rename_i hany
    cases hok
    refine ⟨m, hm, .refl, fun _ _ => .refl, fun _ => .refl, fun hun _ => ?_⟩
    have hnil : args.newComputedBlocks.getD i [] = [] := by
      rw [List.getD_eq_getElem?_getD]
      cases hl : args.newComputedBlocks[i]? with
      | none => rfl
      | some l =>
        by_contra hne
        exact hany (.inl (List.any_eq_true.mpr ⟨l, List.mem_of_getElem? hl, by simpa using hne⟩))
    rw [hnil]
    exact hun

theorem Ok.slots_ready (h : s.Ok k.toPoolConfig) {total numTokens enc all main n : Int} {q' : Nat}
    (hhits : ∀ i, HitOk k.toPoolConfig (args.newComputedBlocks.getD i []))
    (hext : args.numExternalComputedTokens = 0)
    (hs₁ : s.removeSkippedBlocks request.requestId total = .ok s₁)
    (hs₂ : s₁.getNumBlocksToAllocate k request.requestId numTokens args.newComputedBlocks enc all main = .ok (n, s₂))
    (hs₃ : s₂.addComputedBlocks k request args = .ok s₃)
    (hm : s.singleTypeManagers[i]? = some m) (halign : m.IsAlign spec) {covered : Option Int}
    (hcovers : m.Covers spec request.requestId covered)
    (hlater : ∀ n, covered = some n → args.newComputedBlocks = [] ∧ total ≤ n ∧ Py.cdiv n m.blockSize ≤ q' ∧
      (Py.cdiv n m.blockSize < q' → m.Released spec request.requestId total))
    (hfirst : covered = none → (args.newComputedBlocks.getD i []).length < q' ∧
      MambaHit m.blockSize (args.newComputedBlocks.getD i []) (request.numComputedTokens + args.numNewComputedTokens)) :
    ∃ m₃, s₃.singleTypeManagers[i]? = some m₃ ∧ SameStatic m m₃ ∧
      m₃.Ready spec request.requestId (m.blocksOf request.requestId) (args.newComputedBlocks.getD i []) q' ∧
      ∀ rid ≠ request.requestId, SameRequest rid m m₃ := by
  obtain ⟨p, p₁, m₁, hrem, hm₁⟩ := h.removeSkippedBlocks_at hs₁ hm
  have hok₁ := (h.removeSkippedBlocks hs₁).1
  have hpos : (0 : Int) < m.blockSize := by exact_mod_cast halign.pos
  -- the first part keeps the static fields, whatever the request's state
  have hstatic₁ : SameStatic m m₁ := by
    cases covered with
    | none => exact (Unstarted.removeSkippedBlocks halign hcovers hrem).static
    | some n =>
      obtain ⟨q, hq, hrun⟩ := hcovers
      have hle := (Py.cdiv_le_iff hpos).mp (Int.le_of_eq hq)
      exact (hrun.removeSkippedBlocks halign ((hlater n rfl).2.1.trans hle) hrem).1.static
  have halign₁ := halign.congr hstatic₁
  obtain ⟨m₂, hsame₂, hm₂⟩ := hok₁.getNumBlocksToAllocate_at hs₂ hm₁ halign₁
  have hok₂ := (hok₁.getNumBlocksToAllocate hs₂).1
  have halign₂ := halign₁.congr (hsame₂ request.requestId).static
  obtain ⟨m₃, hm₃, hstatic₃, hother, hnone, hfill⟩ := hok₂.addComputedBlocks_at hhits hext hs₃ hm₂ halign₂
  have hstatic₂ := hstatic₁.trans (hsame₂ request.requestId).static
  refine ⟨m₃, hm₃, hstatic₂.trans hstatic₃, ?_, fun rid hne =>
    ((halign.removeSkippedBlocks_other hne hrem).trans (hsame₂ rid)).trans (hother rid hne)⟩
  cases covered with
  | none =>
    obtain ⟨hlt, hhit⟩ := hfirst rfl
    have hun : m.Unstarted request.requestId [] := hcovers
    have hun₂ := (hun.congr (Unstarted.removeSkippedBlocks halign hun hrem)).congr (hsame₂ request.requestId)
    refine .unstarted (request.numComputedTokens + args.numNewComputedTokens)
      (hfill hun₂ (by rwa [hstatic₂.blockSize])) hlt ?_ hun.blocks
    rwa [(hstatic₂.trans hstatic₃).blockSize]
  | some n =>
    obtain ⟨q, hq, hrun⟩ := hcovers
    obtain ⟨hnil, hle, hforward, hrel⟩ := hlater n rfl
    have hle' := (Py.cdiv_le_iff hpos).mp (Int.le_of_eq hq)
    obtain ⟨htrim, hfree⟩ := hrun.removeSkippedBlocks halign (hle.trans hle') hrem
    have hsame := (hsame₂ request.requestId).trans (hnone hnil)
    obtain ⟨hlen, -, hnull⟩ := hrun.blocks.lastBlocks ((h.managers m (List.mem_of_getElem? hm)).distinct _)
    refine .running q ((hrun.trimmed htrim).congr hsame) (by omega) (fun hlt => ?_) ?_ hnull ?_
    · rw [hsame.blocks]
      exact hfree (hrel (by omega))
    · rw [hsame.blocks]
      exact htrim.blocks.lastBlocks hrun.blocks.length
    · rw [hnil]
      rfl

theorem Ok.removeSkippedBlocks_covers (h : s.Ok c) {total : Int} (hok : s.removeSkippedBlocks rid total = .ok s')
    (hm : s.singleTypeManagers[i]? = some m) (halign : m.IsAlign spec) {covered : ReqId → Option Int}
    (hcovers : ∀ rid, m.Covers spec rid (covered rid)) (htotal : ∀ n, covered rid = some n → total ≤ n) :
    ∃ m', s'.singleTypeManagers[i]? = some m' ∧ SameStatic m m' ∧ ∀ rid, m'.Covers spec rid (covered rid) := by
  obtain ⟨p, p', m', hrem, hm'⟩ := h.removeSkippedBlocks_at hok hm
  have hpos : (0 : Int) < m.blockSize := by exact_mod_cast halign.pos
  have hown : SameStatic m m' ∧ m'.Covers spec rid (covered rid) := by
    have hrid := hcovers rid
    cases hcov : covered rid with
    | none =>
      rw [hcov] at hrid
      have hsame := Unstarted.removeSkippedBlocks halign hrid hrem
      exact ⟨hsame.static, hrid.congr hsame⟩
    | some n =>
      rw [hcov] at hrid
      obtain ⟨q, hq, hrun⟩ := hrid
      have hle := (Py.cdiv_le_iff hpos).mp (Int.le_of_eq hq)
      have htrim := (hrun.removeSkippedBlocks halign ((htotal n hcov).trans hle) hrem).1
      exact ⟨htrim.static, q, htrim.static.blockSize ▸ hq, hrun.trimmed htrim⟩
  refine ⟨m', hm', hown.1, fun rid' => ?_⟩
  by_cases heq : rid' = rid
  · rw [heq]
    exact hown.2
  · exact (hcovers rid').congr (halign.removeSkippedBlocks_other heq hrem)

theorem Ok.slots_refused (h : s.Ok k.toPoolConfig) {total numTokens enc all main n : Int}
    {hits : List (List BlockId)} (hs₁ : s.removeSkippedBlocks rid total = .ok s₁)
    (hs₂ : s₁.getNumBlocksToAllocate k rid numTokens hits enc all main = .ok (n, s₂))
    (hm : s.singleTypeManagers[i]? = some m) (halign : m.IsAlign spec) {covered : ReqId → Option Int}
    (hcovers : ∀ rid, m.Covers spec rid (covered rid)) (htotal : ∀ n, covered rid = some n → total ≤ n) :
    ∃ m₂, s₂.singleTypeManagers[i]? = some m₂ ∧ SameStatic m m₂ ∧ ∀ rid, m₂.Covers spec rid (covered rid) := by
  obtain ⟨m₁, hm₁, hstatic₁, hcovers₁⟩ := h.removeSkippedBlocks_covers hs₁ hm halign hcovers htotal
  obtain ⟨m₂, hsame, hm₂⟩ := (h.removeSkippedBlocks hs₁).1.getNumBlocksToAllocate_at hs₂ hm₁ (halign.congr hstatic₁)
  exact ⟨m₂, hm₂, hstatic₁.trans (hsame rid).static, fun rid' => (hcovers₁ rid').congr (hsame rid')⟩

theorem Ok.takeSlots_at (h : s.Ok k.toPoolConfig) {new total need main : Int} (hmain : 0 ≤ main)
    (hhits : ∀ i, HitOk k.toPoolConfig (args.newComputedBlocks.getD i []))
    (hext : args.numExternalComputedTokens = 0)
    {ret : List (List BlockId)} (hok : s.takeSlots k request new args total need main = .ok (ret, s')) :
    ∃ s₃, s.addComputedBlocks k request args = .ok s₃ ∧
      ∀ m₃, s₃.singleTypeManagers[i]? = some m₃ → m₃.IsAlign spec →
        ∃ rest p blocks p' m₄ m', Owned k.toPoolConfig rest p m₃ ∧
          m₃.alignAllocateNewBlocks k.toPoolConfig p spec request.requestId main = .ok (blocks, p', m₄) ∧
          Owned k.toPoolConfig rest p' m₄ ∧ (∀ rid, SameRequest rid m₄ m') ∧
          s'.singleTypeManagers[i]? = some m' := by
  simp only [KVCacheManager.takeSlots, Result.bind_eq_ok, Prod.exists] at hok
  obtain ⟨s₃, hs₃, bs, s₄, hs₄, hok⟩ := hok
  refine ⟨s₃, hs₃, fun m₃ hm₃ halign => ?_⟩
  have hfit : s.HitsFit request args := by
    intro i m hm hlt
    rw [hext] at hlt
    exact absurd hlt (Int.lt_irrefl 0)
  have hok₃ := (h.addComputedBlocks hhits hfit hs₃).1
  obtain ⟨rest, p, blocks, p', m₄, hown, hrun, hown', hm₄⟩ := hok₃.allocateNewBlocks_at hmain hs₄ hm₃ halign
  split at hok
  · simp only [Result.pure_eq_ok, Prod.mk.injEq] at hok
    obtain ⟨-, rfl⟩ := hok
    exact ⟨rest, p, blocks, p', m₄, m₄, hown, hrun, hown', fun _ => .refl, hm₄⟩
  · simp only [Result.bind_eq_ok, Result.pure_eq_ok, Prod.mk.injEq] at hok
    obtain ⟨s₅, hs₅, -, rfl⟩ := hok
    have halign₄ := halign.congr (hown.alignAllocateNewBlocks halign.kvCacheSpec halign.mode hmain hrun).2
    obtain ⟨m', hsame, hm'⟩ := (hok₃.allocateNewBlocks hmain hs₄).1.coordinatorCacheBlocks_at hs₅ hm₄ halign₄
    exact ⟨rest, p, blocks, p', m₄, m', hown, hrun, hown', hsame, hm'⟩

theorem Ok.takeSlots_avoids (h : s.Ok k.toPoolConfig) {new total need main : Int} (hmain : 0 ≤ main)
    (hhits : ∀ i, HitOk k.toPoolConfig (args.newComputedBlocks.getD i []))
    (hext : args.numExternalComputedTokens = 0)
    (hready : ∀ s₃, s.addComputedBlocks k request args = .ok s₃ → ∀ (i : Nat) (m : SingleTypeKVCacheManager)
      (spec : MambaSpec), s₃.singleTypeManagers[i]? = some m → m.kvCacheSpec = .mamba spec →
        spec.mambaCacheMode = .align → ∀ p, Result.Avoids AlignAssertion
          (m.alignAllocateNewBlocks k.toPoolConfig p spec request.requestId main)) :
    Result.Avoids AlignAssertion (s.takeSlots k request new args total need main) := by
  have hfit : s.HitsFit request args := by
    intro i m hm hlt
    rw [hext] at hlt
    exact absurd hlt (Int.lt_irrefl 0)
  have hadd : Result.Avoids AlignAssertion (s.addComputedBlocks k request args) := by
    unfold KVCacheManager.addComputedBlocks KVCacheManager.allocateNewComputedBlocks
    simp [eachManager_avoids, allocateNewComputedBlocks_avoids_align]
  have hcache : ∀ (s : KVCacheManager) (n : Int),
      Result.Avoids AlignAssertion (s.coordinatorCacheBlocks k request n) := by
    intro s n
    unfold KVCacheManager.coordinatorCacheBlocks
    simp [eachManager_avoids, cacheBlocks_avoids_align]
  simp only [KVCacheManager.takeSlots, Result.avoids_bind]
  refine ⟨hadd, fun s₃ hs₃ => ⟨?_, fun r _ => ?_⟩⟩
  · intro e he
    obtain ⟨i, m, rest, p, hm, hown, herr⟩ := (h.addComputedBlocks hhits hfit hs₃).1.eachManager_error
      (fun (_ : True) hown hrun => hown.allocateNewBlocks hmain hrun) (fun _ _ _ => trivial) he
    by_cases halign : ∃ spec, m.kvCacheSpec = .mamba spec ∧ spec.mambaCacheMode = .align
    · obtain ⟨spec, hspec, hmode⟩ := halign
      have heq : m.allocateNewBlocks k.toPoolConfig p request.requestId
            (if m.kvCacheSpec.isCrossAttention then args.numEncoderTokens else need) main =
          m.alignAllocateNewBlocks k.toPoolConfig p spec request.requestId main := by
        unfold SingleTypeKVCacheManager.allocateNewBlocks
        rw [hspec]
        exact if_neg (not_not.mpr hmode)
      rw [heq] at herr
      exact hready s₃ hs₃ i m spec hm hspec hmode p e herr
    · exact allocateNewBlocks_avoids_align (fun spec hspec hmode => halign ⟨spec, hspec, hmode⟩) e herr
  · split
    · exact Result.avoids_pure
    · simp [hcache]

def totalComputedTokens (k : KVCacheManagerConfig) (request : Request) (args : SlotArgs) : Int :=
  min (request.numComputedTokens + args.numNewComputedTokens + args.numExternalComputedTokens) (k.maxModelLen : Int)

structure SlotsReady (k : KVCacheManagerConfig) (covered : ReqId → Option Int) (request : Request)
    (args : SlotArgs) (new : Nat) (m : SingleTypeKVCacheManager) (spec : MambaSpec) (hits : List BlockId) :
    Prop where
  later : ∀ n, covered request.requestId = some n → args.newComputedBlocks = [] ∧
    totalComputedTokens k request args ≤ n ∧
    Py.cdiv n m.blockSize ≤ Py.cdiv (totalComputedTokens k request args + new) m.blockSize ∧
    (Py.cdiv n m.blockSize < Py.cdiv (totalComputedTokens k request args + new) m.blockSize →
      m.Released spec request.requestId (totalComputedTokens k request args))
  first : covered request.requestId = none →
    request.numComputedTokens + args.numNewComputedTokens < totalComputedTokens k request args + new ∧
    MambaHit m.blockSize hits (request.numComputedTokens + args.numNewComputedTokens)

structure AlignGroups (s : KVCacheManager) (covered : ReqId → Option Int) : Prop where
  pos : ∀ m ∈ s.singleTypeManagers, ∀ spec, m.kvCacheSpec = .mamba spec → spec.mambaCacheMode = .align →
    0 < m.blockSize
  covers : ∀ (i : Nat) (m : SingleTypeKVCacheManager) (spec : MambaSpec), s.singleTypeManagers[i]? = some m →
    m.IsAlign spec → ∀ rid, m.Covers spec rid (covered rid)

variable {covered : ReqId → Option Int}

theorem Ok.slots_ready_of (h : s.Ok k.toPoolConfig) (hg : s.AlignGroups covered) {new : Nat}
    {numTokens enc all n : Int}
    (hcounts : args.Counts request new)
    (hhits : ∀ i, HitOk k.toPoolConfig (args.newComputedBlocks.getD i []))
    (hext : args.numExternalComputedTokens = 0)
    (hs₁ : s.removeSkippedBlocks request.requestId (totalComputedTokens k request args) = .ok s₁)
    (hs₂ : s₁.getNumBlocksToAllocate k request.requestId numTokens args.newComputedBlocks enc all
      (totalComputedTokens k request args + new) = .ok (n, s₂))
    (hs₃ : s₂.addComputedBlocks k request args = .ok s₃)
    (hm : s.singleTypeManagers[i]? = some m) (halign : m.IsAlign spec)
    (hready : SlotsReady k covered request args new m spec (args.newComputedBlocks.getD i [])) :
    ∃ (q' : Nat) (m₃ : SingleTypeKVCacheManager), s₃.singleTypeManagers[i]? = some m₃ ∧ SameStatic m m₃ ∧
      Py.cdiv (totalComputedTokens k request args + new) m₃.blockSize = q' ∧
      m₃.Ready spec request.requestId (m.blocksOf request.requestId) (args.newComputedBlocks.getD i []) q' ∧
      ∀ rid ≠ request.requestId, SameRequest rid m m₃ := by
  have hpos : (0 : Int) < m.blockSize := by exact_mod_cast halign.pos
  have hmain : 0 ≤ totalComputedTokens k request args + new := by
    have := hcounts.computed
    have := hcounts.newComputed
    have := hcounts.external
    unfold totalComputedTokens
    omega
  obtain ⟨q', hq'⟩ := Int.eq_ofNat_of_zero_le (Py.cdiv_nonneg hmain (Int.natCast_nonneg m.blockSize))
  have hlater := hready.later
  rw [hq'] at hlater
  have hfirst : covered request.requestId = none → (args.newComputedBlocks.getD i []).length < q' ∧
      MambaHit m.blockSize (args.newComputedBlocks.getD i [])
        (request.numComputedTokens + args.numNewComputedTokens) := by
    intro hnone
    obtain ⟨hlt, hhit⟩ := hready.first hnone
    refine ⟨?_, hhit⟩
    have := (Py.lt_cdiv_iff hpos).mpr (hhit.length ▸ hlt)
    omega
  obtain ⟨m₃, hm₃, hstatic, hready₃, hother⟩ := h.slots_ready hhits hext hs₁ hs₂ hs₃ hm halign
    (hg.covers i m spec hm halign request.requestId) hlater hfirst
  exact ⟨q', m₃, hm₃, hstatic, hstatic.blockSize ▸ hq', hready₃, hother⟩

theorem SameGroups.manager (h : SameGroups s s') (hm' : s'.singleTypeManagers[i]? = some m') :
    ∃ m, s.singleTypeManagers[i]? = some m ∧ m.kvCacheSpec = m'.kvCacheSpec ∧ m.blockSize = m'.blockSize := by
  have hmap : (s'.singleTypeManagers.map groupOf)[i]? = some (groupOf m') := by
    rw [List.getElem?_map, hm']
    rfl
  rw [h, List.getElem?_map, Option.map_eq_some_iff] at hmap
  obtain ⟨m, hm, hg⟩ := hmap
  exact ⟨m, hm, congrArg Prod.fst hg, congrArg (·.2.1) hg⟩

theorem Ok.allocateSlots_avoids (h : s.Ok k.toPoolConfig) (hg : s.AlignGroups covered) {new : Nat}
    (hcounts : args.Counts request new) (hhits : ∀ i, HitOk k.toPoolConfig (args.newComputedBlocks.getD i []))
    (hext : args.numExternalComputedTokens = 0)
    (hready : ∀ (i : Nat) (m : SingleTypeKVCacheManager) (spec : MambaSpec), s.singleTypeManagers[i]? = some m →
      m.IsAlign spec → SlotsReady k covered request args new m spec (args.newComputedBlocks.getD i [])) :
    Result.Avoids AlignAssertion (s.allocateSlots k request new args) := by
  have hmain : 0 ≤ totalComputedTokens k request args + new := by
    have := hcounts.computed
    have := hcounts.newComputed
    have := hcounts.external
    unfold totalComputedTokens
    omega
  have hremove : ∀ (s : KVCacheManager) (n : Int),
      Result.Avoids AlignAssertion (s.removeSkippedBlocks request.requestId n) := by
    intro s n
    unfold KVCacheManager.removeSkippedBlocks
    simp [eachManager_avoids, removeSkippedBlocks_avoids_align]
  have hcount : ∀ (s : KVCacheManager) (hits : List (List BlockId)) (a b d e : Int),
      Result.Avoids AlignAssertion (s.getNumBlocksToAllocate k request.requestId a hits b d e) := by
    intro s hits a b d e
    unfold KVCacheManager.getNumBlocksToAllocate
    simp [eachManager_avoids, getNumBlocksToAllocate_avoids_align]
  unfold KVCacheManager.allocateSlots
  split
  · simp [AlignAssertion]
  · simp only [Result.avoids_bind]
    refine ⟨hremove _ _, fun s₁ hs₁ => ⟨hcount _ _ _ _ _ _, fun r hs₂ => ?_⟩⟩
    obtain ⟨n, s₂⟩ := r
    dsimp only
    split
    · exact Result.avoids_pure
    · have hok₂ := ((h.removeSkippedBlocks hs₁).1.getNumBlocksToAllocate hs₂).1
      have hsame₂ := (h.removeSkippedBlocks hs₁).2.trans ((h.removeSkippedBlocks hs₁).1.getNumBlocksToAllocate hs₂).2
      have hfit : s₂.HitsFit request args := by
        intro i m hm hlt
        rw [hext] at hlt
        exact absurd hlt (Int.lt_irrefl 0)
      rw [Result.avoids_bind]
      refine ⟨hok₂.takeSlots_avoids hmain hhits hext ?_, fun _ _ => Result.avoids_pure⟩
      intro s₃ hs₃ i m₃ spec hm₃ hspec hmode p
      obtain ⟨m, hm, hspec', -⟩ := (hsame₂.trans (hok₂.addComputedBlocks hhits hfit hs₃).2).manager hm₃
      have halign : m.IsAlign spec :=
        ⟨hspec'.trans hspec, hmode, hg.pos m (List.mem_of_getElem? hm) spec (hspec'.trans hspec) hmode⟩
      obtain ⟨q', m₄, hm₄, -, hq', hready₃, -⟩ :=
        h.slots_ready_of hg hcounts hhits hext hs₁ hs₂ hs₃ hm halign (hready i m spec hm halign)
      cases hm₃.symm.trans hm₄
      exact hready₃.avoids hq'

theorem Ok.allocateSlots_at (h : s.Ok k.toPoolConfig) (hg : s.AlignGroups covered) {new : Nat}
    (hcounts : args.Counts request new) (hhits : ∀ i, HitOk k.toPoolConfig (args.newComputedBlocks.getD i []))
    (hext : args.numExternalComputedTokens = 0) (hm : s.singleTypeManagers[i]? = some m) (halign : m.IsAlign spec)
    (hready : SlotsReady k covered request args new m spec (args.newComputedBlocks.getD i []))
    {ret : Option (List (List BlockId))} (hok : s.allocateSlots k request new args = .ok (ret, s')) :
    ∃ m', s'.singleTypeManagers[i]? = some m' ∧ SameStatic m m' ∧
      (ret = none → ∀ rid, m'.Covers spec rid (covered rid)) ∧
      (ret ≠ none → (∀ rid ≠ request.requestId, m'.Covers spec rid (covered rid)) ∧
        m'.Covers spec request.requestId (some (totalComputedTokens k request args + new)) ∧
        StateKept spec.numSpeculativeBlocks (m.blocksOf request.requestId) (args.newComputedBlocks.getD i [])
          (m'.blocksOf request.requestId)) := by
  have hmain : 0 ≤ totalComputedTokens k request args + new := by
    have := hcounts.computed
    have := hcounts.newComputed
    have := hcounts.external
    unfold totalComputedTokens
    omega
  unfold KVCacheManager.allocateSlots at hok
  split at hok
  · cases hok
  · simp only [Result.bind_eq_ok, Prod.exists] at hok
    obtain ⟨s₁, hs₁, n, s₂, hs₂, hok⟩ := hok
    have hcovers := hg.covers i m spec hm halign
    split at hok
    · simp only [Result.pure_eq_ok, Prod.mk.injEq] at hok
      obtain ⟨rfl, rfl⟩ := hok
      obtain ⟨m₂, hm₂, hstatic, hcovers₂⟩ := h.slots_refused hs₁ hs₂ hm halign hcovers
        fun n hn => (hready.later n hn).2.1
      exact ⟨m₂, hm₂, hstatic, fun _ => hcovers₂, fun hne => absurd rfl hne⟩
    · simp only [Result.bind_eq_ok, Prod.exists, Result.pure_eq_ok, Prod.mk.injEq] at hok
      obtain ⟨bs, s₃, htake, rfl, rfl⟩ := hok
      have hok₂ := ((h.removeSkippedBlocks hs₁).1.getNumBlocksToAllocate hs₂).1
      obtain ⟨s₃', hs₃', hat⟩ := hok₂.takeSlots_at hmain hhits hext htake
      obtain ⟨q', m₃, hm₃, hstatic₃, hq', hready₃, hother⟩ :=
        h.slots_ready_of hg hcounts hhits hext hs₁ hs₂ hs₃' hm halign hready
      have halign₃ := halign.congr hstatic₃
      obtain ⟨rest, p, blocks, p', m₄, m', hown, hrun, hown', hsame, hm'⟩ := hat m₃ hm₃ halign₃
      obtain ⟨hrun', hkept⟩ := hready₃.allocated_ok hown hq' hrun hown'
      have hstatic₄ := (hown.alignAllocateNewBlocks halign₃.kvCacheSpec halign₃.mode hmain hrun).2
      have hstatic' := hstatic₄.trans (hsame request.requestId).static
      refine ⟨m', hm', hstatic₃.trans hstatic', (fun h => by cases h), fun _ => ⟨fun rid hne => ?_, ?_, ?_⟩⟩
      · have hnew : SameRequest rid m₃ m₄ := by
          have := halign₃.allocateNewBlocks_other (p := p) (n := 0) (c := k.toPoolConfig) hne
            (by rw [halign₃.allocateNewBlocks_eq]; exact hrun)
          exact this
        exact (hcovers rid).congr (((hother rid hne).trans hnew).trans (hsame rid))
      · exact ⟨q', hstatic'.blockSize ▸ hq', hrun'.congr (hsame request.requestId)⟩
      · rw [(hsame request.requestId).blocks]
        exact hkept

end KVCacheManager

end Vllm
