import Vllm.HashLinks
import Vllm.KVOwnership

namespace Vllm

open BlockPool SingleTypeKVCacheManager

namespace KVCacheManager

def heldBy (ms : List SingleTypeKVCacheManager) (b : BlockId) : Nat := (ms.map (·.held b)).sum

structure Ok (c : PoolConfig) (s : KVCacheManager) : Prop where
  inv : s.blockPool.Inv c (heldBy s.singleTypeManagers)
  managers : ∀ m ∈ s.singleTypeManagers, m.Ok

def groupOf (m : SingleTypeKVCacheManager) : KVCacheSpec × Nat × Nat :=
  (m.kvCacheSpec, m.blockSize, m.kvCacheGroupId)

def SameGroups (s s' : KVCacheManager) : Prop :=
  s'.singleTypeManagers.map groupOf = s.singleTypeManagers.map groupOf

variable {c : PoolConfig} {s s' : KVCacheManager} {rid : ReqId} {β : Type}

theorem groupOf_eq {m m' : SingleTypeKVCacheManager} (h : SameStatic m m') :
    groupOf m' = groupOf m := by
  rw [groupOf, groupOf, h.kvCacheSpec, h.blockSize, h.kvCacheGroupId]

theorem SameGroups.refl : SameGroups s s := rfl

theorem SameGroups.trans {s'' : KVCacheManager} (h : SameGroups s s') (h' : SameGroups s' s'') :
    SameGroups s s'' :=
  Eq.trans h' h

theorem SameGroups.blockSize (h : SameGroups s s') {i : Nat} {m' : SingleTypeKVCacheManager}
    (hm' : s'.singleTypeManagers[i]? = some m') :
    ∃ m, s.singleTypeManagers[i]? = some m ∧ m.blockSize = m'.blockSize := by
  have hmap : (s'.singleTypeManagers.map groupOf)[i]? = some (groupOf m') := by
    rw [List.getElem?_map, hm']
    rfl
  rw [h, List.getElem?_map, Option.map_eq_some_iff] at hmap
  obtain ⟨m, hm, hg⟩ := hmap
  exact ⟨m, hm, congrArg (·.2.1) hg⟩

theorem forManagers_owned
    {f : Nat → BlockPool → SingleTypeKVCacheManager →
      Result (β × BlockPool × SingleTypeKVCacheManager)}
    {Pre : Nat → SingleTypeKVCacheManager → Prop}
    (hf : ∀ {i rest p m b p' m'}, Pre i m → Owned c rest p m → f i p m = .ok (b, p', m') →
      Owned c rest p' m' ∧ SameStatic m m')
    {i : Nat} {rest : BlockId → Nat} {p p' : BlockPool} {ms ms' : List SingleTypeKVCacheManager}
    {bs : List β} (hpre : ∀ (j : Nat) (m : SingleTypeKVCacheManager), ms[j]? = some m → Pre (i + j) m)
    (hinv : p.Inv c fun b => heldBy ms b + rest b) (hok : ∀ m ∈ ms, m.Ok)
    (hrun : forManagers f i p ms = .ok (bs, p', ms')) :
    p'.Inv c (fun b => heldBy ms' b + rest b) ∧ (∀ m ∈ ms', m.Ok) ∧
      ms'.map groupOf = ms.map groupOf := by
  induction ms generalizing i rest p bs ms' with
  | nil =>
    cases hrun
    exact ⟨hinv, by simp, rfl⟩
  | cons m ms ih =>
    simp only [forManagers, Result.bind_eq_ok, Prod.exists, Result.pure_eq_ok, Prod.mk.injEq] at hrun
    obtain ⟨b, q, m₁, hm, bs₁, q₁, ms₁, hms, -, rfl, rfl⟩ := hrun
    have hown : Owned c (fun b => heldBy ms b + rest b) p m :=
      ⟨hinv.congr fun b _ => by simp only [heldBy, List.map_cons, List.sum_cons]; omega,
        hok m List.mem_cons_self⟩
    obtain ⟨hown₁, hstatic⟩ := hf (hpre 0 m rfl) hown hm
    have hrec := ih
      (fun j m' hj => by
        rw [show i + 1 + j = i + (j + 1) by omega]
        exact hpre (j + 1) m' (by simpa using hj))
      (show q.Inv c (fun b => heldBy ms b + (m₁.held b + rest b)) from
        hown₁.inv.congr fun b _ => by omega) (fun m' hm' => hok m' (List.mem_cons_of_mem m hm')) hms
    refine ⟨hrec.1.congr fun b _ => ?_, ?_, ?_⟩
    · simp only [heldBy, List.map_cons, List.sum_cons]
      omega
    · intro m' hm'
      rcases List.mem_cons.mp hm' with rfl | hm'
      · exact hown₁.ok
      · exact hrec.2.1 m' hm'
    · rw [List.map_cons, List.map_cons, groupOf_eq hstatic, hrec.2.2]

theorem Ok.eachManager (h : s.Ok c)
    {f : Nat → BlockPool → SingleTypeKVCacheManager →
      Result (β × BlockPool × SingleTypeKVCacheManager)}
    {Pre : Nat → SingleTypeKVCacheManager → Prop}
    (hf : ∀ {i rest p m b p' m'}, Pre i m → Owned c rest p m → f i p m = .ok (b, p', m') →
      Owned c rest p' m' ∧ SameStatic m m')
    (hpre : ∀ (j : Nat) (m : SingleTypeKVCacheManager), s.singleTypeManagers[j]? = some m → Pre j m)
    {bs : List β} (hrun : s.eachManager f = .ok (bs, s')) : s'.Ok c ∧ SameGroups s s' := by
  simp only [KVCacheManager.eachManager, Result.bind_eq_ok, Prod.exists, Result.pure_eq_ok,
    Prod.mk.injEq] at hrun
  obtain ⟨bs₁, p, ms, hms, -, rfl⟩ := hrun
  obtain ⟨hinv, hok, hstatic⟩ := forManagers_owned hf
    (fun j m hj => by rw [Nat.zero_add]; exact hpre j m hj)
    (show s.blockPool.Inv c (fun b => heldBy s.singleTypeManagers b + 0) from h.inv) h.managers hms
  exact ⟨⟨hinv, hok⟩, hstatic⟩

theorem forManagers_at
    {f : Nat → BlockPool → SingleTypeKVCacheManager →
      Result (β × BlockPool × SingleTypeKVCacheManager)}
    {Pre : Nat → SingleTypeKVCacheManager → Prop}
    (hf : ∀ {i rest p m b p' m'}, Pre i m → Owned c rest p m → f i p m = .ok (b, p', m') →
      Owned c rest p' m' ∧ SameStatic m m')
    {i : Nat} {rest : BlockId → Nat} {p p' : BlockPool} {ms ms' : List SingleTypeKVCacheManager}
    {bs : List β} (hpre : ∀ (j : Nat) (m : SingleTypeKVCacheManager), ms[j]? = some m → Pre (i + j) m)
    (hinv : p.Inv c fun b => heldBy ms b + rest b) (hok : ∀ m ∈ ms, m.Ok)
    (hrun : forManagers f i p ms = .ok (bs, p', ms')) {j : Nat} {m : SingleTypeKVCacheManager}
    (hj : ms[j]? = some m) : ∃ rest' q b q' m', Owned c rest' q m ∧ f (i + j) q m = .ok (b, q', m') ∧
      ms'[j]? = some m' := by
  induction ms generalizing i j rest p bs ms' with
  | nil => simp at hj
  | cons m₀ ms ih =>
    simp only [forManagers, Result.bind_eq_ok, Prod.exists, Result.pure_eq_ok, Prod.mk.injEq] at hrun
    obtain ⟨b, q, m₁, hm, bs₁, q₁, ms₁, hms, -, rfl, rfl⟩ := hrun
    have hown : Owned c (fun b => heldBy ms b + rest b) p m₀ :=
      ⟨hinv.congr fun b _ => by simp only [heldBy, List.map_cons, List.sum_cons]; omega,
        hok m₀ List.mem_cons_self⟩
    obtain ⟨hown₁, -⟩ := hf (hpre 0 m₀ rfl) hown hm
    cases j with
    | zero =>
      rw [List.getElem?_cons_zero, Option.some_inj] at hj
      subst hj
      exact ⟨_, p, b, q, m₁, hown, hm, rfl⟩
    | succ j =>
      have hrec := ih
        (fun j m' hj => by
          rw [show i + 1 + j = i + (j + 1) by omega]
          exact hpre (j + 1) m' (by simpa using hj))
        (show q.Inv c (fun b => heldBy ms b + (m₁.held b + rest b)) from
          hown₁.inv.congr fun b _ => by omega) (fun m' hm' => hok m' (List.mem_cons_of_mem m₀ hm')) hms
        (by simpa using hj)
      rwa [show i + 1 + j = i + (j + 1) by omega] at hrec

theorem forManagers_error
    {f : Nat → BlockPool → SingleTypeKVCacheManager →
      Result (β × BlockPool × SingleTypeKVCacheManager)}
    {Pre : Nat → SingleTypeKVCacheManager → Prop}
    (hf : ∀ {i rest p m b p' m'}, Pre i m → Owned c rest p m → f i p m = .ok (b, p', m') →
      Owned c rest p' m' ∧ SameStatic m m')
    {i : Nat} {rest : BlockId → Nat} {p : BlockPool} {ms : List SingleTypeKVCacheManager} {e : PyError}
    (hpre : ∀ (j : Nat) (m : SingleTypeKVCacheManager), ms[j]? = some m → Pre (i + j) m)
    (hinv : p.Inv c fun b => heldBy ms b + rest b) (hok : ∀ m ∈ ms, m.Ok)
    (hrun : forManagers f i p ms = .error e) :
    ∃ j m rest' q, ms[j]? = some m ∧ Owned c rest' q m ∧ f (i + j) q m = .error e := by
  induction ms generalizing i rest p with
  | nil => cases hrun
  | cons m₀ ms ih =>
    have hown : Owned c (fun b => heldBy ms b + rest b) p m₀ :=
      ⟨hinv.congr fun b _ => by simp only [heldBy, List.map_cons, List.sum_cons]; omega,
        hok m₀ List.mem_cons_self⟩
    unfold forManagers at hrun
    cases hm : f i p m₀ with
    | error e' =>
      rw [hm] at hrun
      cases hrun
      exact ⟨0, m₀, _, p, rfl, hown, hm⟩
    | ok r =>
      obtain ⟨b, q, m₁⟩ := r
      rw [hm, Result.ok_bind] at hrun
      dsimp only at hrun
      obtain ⟨hown₁, -⟩ := hf (hpre 0 m₀ rfl) hown hm
      cases hms : forManagers f (i + 1) q ms with
      | ok r =>
        rw [hms] at hrun
        cases hrun
      | error e' =>
        rw [hms] at hrun
        cases hrun
        obtain ⟨j, m, rest', q', hj, hown', herr⟩ := ih
          (fun j m' hj => by
            rw [show i + 1 + j = i + (j + 1) by omega]
            exact hpre (j + 1) m' (by simpa using hj))
          (show q.Inv c (fun b => heldBy ms b + (m₁.held b + rest b)) from
            hown₁.inv.congr fun b _ => by omega) (fun m' hm' => hok m' (List.mem_cons_of_mem m₀ hm')) hms
        rw [show i + 1 + j = i + (j + 1) by omega] at herr
        exact ⟨j + 1, m, rest', q', hj, hown', herr⟩

theorem Ok.eachManager_at (h : s.Ok c)
    {f : Nat → BlockPool → SingleTypeKVCacheManager →
      Result (β × BlockPool × SingleTypeKVCacheManager)}
    {Pre : Nat → SingleTypeKVCacheManager → Prop}
    (hf : ∀ {i rest p m b p' m'}, Pre i m → Owned c rest p m → f i p m = .ok (b, p', m') →
      Owned c rest p' m' ∧ SameStatic m m')
    (hpre : ∀ (j : Nat) (m : SingleTypeKVCacheManager), s.singleTypeManagers[j]? = some m → Pre j m)
    {bs : List β} (hrun : s.eachManager f = .ok (bs, s')) {j : Nat} {m : SingleTypeKVCacheManager}
    (hj : s.singleTypeManagers[j]? = some m) : ∃ rest q b q' m', Owned c rest q m ∧
      f j q m = .ok (b, q', m') ∧ s'.singleTypeManagers[j]? = some m' := by
  simp only [KVCacheManager.eachManager, Result.bind_eq_ok, Prod.exists, Result.pure_eq_ok,
    Prod.mk.injEq] at hrun
  obtain ⟨bs₁, p, ms, hms, -, rfl⟩ := hrun
  obtain ⟨rest, q, b, q', m', hown, hm, hm'⟩ := forManagers_at hf
    (fun j m hj => by rw [Nat.zero_add]; exact hpre j m hj)
    (show s.blockPool.Inv c (fun b => heldBy s.singleTypeManagers b + 0) from h.inv) h.managers hms hj
  rw [Nat.zero_add] at hm
  exact ⟨rest, q, b, q', m', hown, hm, hm'⟩

theorem Ok.eachManager_error (h : s.Ok c)
    {f : Nat → BlockPool → SingleTypeKVCacheManager →
      Result (β × BlockPool × SingleTypeKVCacheManager)}
    {Pre : Nat → SingleTypeKVCacheManager → Prop}
    (hf : ∀ {i rest p m b p' m'}, Pre i m → Owned c rest p m → f i p m = .ok (b, p', m') →
      Owned c rest p' m' ∧ SameStatic m m')
    (hpre : ∀ (j : Nat) (m : SingleTypeKVCacheManager), s.singleTypeManagers[j]? = some m → Pre j m)
    {e : PyError} (hrun : s.eachManager f = .error e) :
    ∃ (j : Nat) (m : SingleTypeKVCacheManager) (rest : BlockId → Nat) (q : BlockPool),
      s.singleTypeManagers[j]? = some m ∧ Owned c rest q m ∧ f j q m = .error e := by
  unfold KVCacheManager.eachManager at hrun
  cases hms : forManagers f 0 s.blockPool s.singleTypeManagers with
  | ok r =>
    rw [hms] at hrun
    cases hrun
  | error e' =>
    rw [hms] at hrun
    cases hrun
    obtain ⟨j, m, rest, q, hj, hown, herr⟩ := forManagers_error hf
      (fun j m hj => by rw [Nat.zero_add]; exact hpre j m hj)
      (show s.blockPool.Inv c (fun b => heldBy s.singleTypeManagers b + 0) from h.inv) h.managers hms
    rw [Nat.zero_add] at herr
    exact ⟨j, m, rest, q, hj, hown, herr⟩

theorem Ok.removeSkippedBlocks (h : s.Ok c) {n : Int}
    (hok : s.removeSkippedBlocks rid n = .ok s') : s'.Ok c ∧ SameGroups s s' := by
  simp only [KVCacheManager.removeSkippedBlocks, Result.bind_eq_ok, Prod.exists,
    Result.pure_eq_ok] at hok
  obtain ⟨bs, s₁, hok, rfl⟩ := hok
  refine h.eachManager ?_ (fun _ _ _ => trivial) hok
  intro i rest p m b p' m' _ hown hrun
  simp only [Result.bind_eq_ok, Prod.exists, Result.pure_eq_ok, Prod.mk.injEq] at hrun
  obtain ⟨q, m₁, hrun, -, rfl, rfl⟩ := hrun
  exact hown.removeSkippedBlocks hrun

variable {k : KVCacheManagerConfig}

/-- In every group the hits fit into the computed tokens, if blocks for external tokens follow. -/
def HitsFit (s : KVCacheManager) (request : Request) (args : SlotArgs) : Prop :=
  ∀ (i : Nat) (m : SingleTypeKVCacheManager), s.singleTypeManagers[i]? = some m →
    m.HitsFit (args.newComputedBlocks.getD i []) (request.numComputedTokens +
      args.numNewComputedTokens + args.numExternalComputedTokens) args.numExternalComputedTokens

theorem HitsFit.congr {request : Request} {args : SlotArgs} (h : s.HitsFit request args)
    (hsame : SameGroups s s') : s'.HitsFit request args := by
  intro i m' hm'
  obtain ⟨m, hm, hsize⟩ := hsame.blockSize hm'
  unfold SingleTypeKVCacheManager.HitsFit
  rw [← hsize]
  exact h i m hm

theorem Ok.getNumBlocksToAllocate (h : s.Ok k.toPoolConfig) {hits : List (List BlockId)}
    {numTokens enc total main n : Int}
    (hok : s.getNumBlocksToAllocate k rid numTokens hits enc total main = .ok (n, s')) :
    s'.Ok k.toPoolConfig ∧ SameGroups s s' := by
  simp only [KVCacheManager.getNumBlocksToAllocate, Result.bind_eq_ok, Prod.exists,
    Result.pure_eq_ok, Prod.mk.injEq] at hok
  obtain ⟨bs, s₁, hok, -, rfl⟩ := hok
  refine h.eachManager ?_ (fun _ _ _ => trivial) hok
  intro i rest p m b p' m' _ hown hrun
  split at hrun
  all_goals
    simp only [Result.bind_eq_ok, Prod.exists, Result.pure_eq_ok, Prod.mk.injEq] at hrun
    obtain ⟨n₁, m₁, hrun, -, rfl, rfl⟩ := hrun
    exact hown.getNumBlocksToAllocate hrun

theorem Ok.allocateNewComputedBlocks (h : s.Ok k.toPoolConfig) {hits : List (List BlockId)}
    {local_ ext : Int} (hhits : ∀ i, HitOk k.toPoolConfig (hits.getD i []))
    (hfit : ∀ (i : Nat) (m : SingleTypeKVCacheManager), s.singleTypeManagers[i]? = some m →
      m.HitsFit (hits.getD i []) (local_ + ext) ext)
    (hok : s.allocateNewComputedBlocks k rid hits local_ ext = .ok s') :
    s'.Ok k.toPoolConfig ∧ SameGroups s s' := by
  simp only [KVCacheManager.allocateNewComputedBlocks, Result.bind_eq_ok, Prod.exists,
    Result.pure_eq_ok] at hok
  obtain ⟨bs, s₁, hok, rfl⟩ := hok
  refine h.eachManager ?_ hfit hok
  intro i rest p m b p' m' hpre hown hrun
  simp only [Result.bind_eq_ok, Prod.exists, Result.pure_eq_ok, Prod.mk.injEq] at hrun
  obtain ⟨q, m₁, hrun, -, rfl, rfl⟩ := hrun
  exact hown.allocateNewComputedBlocks (hhits i) hpre hrun

theorem Ok.allocateNewBlocks (h : s.Ok k.toPoolConfig) {n main enc : Int} (hmain : 0 ≤ main)
    {ret : List (List BlockId)} (hok : s.allocateNewBlocks k rid n main enc = .ok (ret, s')) :
    s'.Ok k.toPoolConfig ∧ SameGroups s s' := by
  refine h.eachManager ?_ (fun _ _ _ => trivial) hok
  intro i rest p m b p' m' _ hown hrun
  exact hown.allocateNewBlocks hmain hrun

theorem Ok.coordinatorCacheBlocks (h : s.Ok k.toPoolConfig) {request : Request} {n : Int}
    (hok : s.coordinatorCacheBlocks k request n = .ok s') :
    s'.Ok k.toPoolConfig ∧ SameGroups s s' := by
  simp only [KVCacheManager.coordinatorCacheBlocks, Result.bind_eq_ok, Prod.exists,
    Result.pure_eq_ok] at hok
  obtain ⟨bs, s₁, hok, rfl⟩ := hok
  refine h.eachManager ?_ (fun _ _ _ => trivial) hok
  intro i rest p m b p' m' _ hown hrun
  simp only [Result.bind_eq_ok, Prod.exists, Result.pure_eq_ok, Prod.mk.injEq] at hrun
  obtain ⟨q, m₁, hrun, -, rfl, rfl⟩ := hrun
  exact hown.cacheBlocks hrun

theorem Ok.addComputedBlocks (h : s.Ok k.toPoolConfig) {request : Request} {args : SlotArgs}
    (hhits : ∀ i, HitOk k.toPoolConfig (args.newComputedBlocks.getD i []))
    (hfit : s.HitsFit request args) (hok : s.addComputedBlocks k request args = .ok s') :
    s'.Ok k.toPoolConfig ∧ SameGroups s s' := by
  unfold KVCacheManager.addComputedBlocks at hok
  split at hok
  · exact h.allocateNewComputedBlocks hhits hfit hok
  · cases hok
    exact ⟨h, SameGroups.refl⟩

theorem Ok.takeSlots (h : s.Ok k.toPoolConfig) {request : Request} {args : SlotArgs}
    (hhits : ∀ i, HitOk k.toPoolConfig (args.newComputedBlocks.getD i []))
    (hfit : s.HitsFit request args) {new total need main : Int} (hmain : 0 ≤ main)
    {ret : List (List BlockId)}
    (hok : s.takeSlots k request new args total need main = .ok (ret, s')) :
    s'.Ok k.toPoolConfig ∧ SameGroups s s' := by
  simp only [KVCacheManager.takeSlots, Result.bind_eq_ok, Prod.exists] at hok
  obtain ⟨s₁, hs₁, bs, s₂, hs₂, hok⟩ := hok
  obtain ⟨hok₁, hsame₁⟩ := h.addComputedBlocks hhits hfit hs₁
  obtain ⟨hok₂, hsame₂⟩ := hok₁.allocateNewBlocks hmain hs₂
  split at hok
  · simp only [Result.pure_eq_ok, Prod.mk.injEq] at hok
    obtain ⟨-, rfl⟩ := hok
    exact ⟨hok₂, hsame₁.trans hsame₂⟩
  · simp only [Result.bind_eq_ok, Result.pure_eq_ok, Prod.mk.injEq] at hok
    obtain ⟨s₃, hs₃, -, rfl⟩ := hok
    obtain ⟨hok₃, hsame₃⟩ := hok₂.coordinatorCacheBlocks hs₃
    exact ⟨hok₃, (hsame₁.trans hsame₂).trans hsame₃⟩

/-- The counts its callers pass to `allocate_slots`. -/
structure SlotArgs.Counts (request : Request) (numNewTokens : Int) (args : SlotArgs) : Prop where
  computed : 0 ≤ request.numComputedTokens
  newTokens : 0 ≤ numNewTokens
  newComputed : 0 ≤ args.numNewComputedTokens
  external : 0 ≤ args.numExternalComputedTokens

theorem Ok.allocateSlots (h : s.Ok k.toPoolConfig) {request : Request} {numNewTokens : Int}
    {args : SlotArgs} (hcounts : args.Counts request numNewTokens)
    (hhits : ∀ i, HitOk k.toPoolConfig (args.newComputedBlocks.getD i []))
    {ret : Option (List (List BlockId))} (hfit : ret ≠ none → s.HitsFit request args)
    (hok : s.allocateSlots k request numNewTokens args = .ok (ret, s')) :
    s'.Ok k.toPoolConfig ∧ SameGroups s s' := by
  unfold KVCacheManager.allocateSlots at hok
  split at hok
  · cases hok
  · simp only [Result.bind_eq_ok, Prod.exists] at hok
    obtain ⟨s₁, hs₁, n, s₂, hs₂, hok⟩ := hok
    obtain ⟨hok₁, hsame₁⟩ := h.removeSkippedBlocks hs₁
    obtain ⟨hok₂, hsame₂⟩ := hok₁.getNumBlocksToAllocate hs₂
    have hsame := hsame₁.trans hsame₂
    split at hok
    · simp only [Result.pure_eq_ok, Prod.mk.injEq] at hok
      obtain ⟨-, rfl⟩ := hok
      exact ⟨hok₂, hsame⟩
    · simp only [Result.bind_eq_ok, Prod.exists, Result.pure_eq_ok, Prod.mk.injEq] at hok
      obtain ⟨bs, s₃, hs₃, rfl, rfl⟩ := hok
      have hmain : 0 ≤ min (request.numComputedTokens + args.numNewComputedTokens +
          args.numExternalComputedTokens) (k.maxModelLen : Int) + numNewTokens := by
        have := hcounts.computed
        have := hcounts.newTokens
        have := hcounts.newComputed
        have := hcounts.external
        omega
      obtain ⟨hok₃, hsame₃⟩ := hok₂.takeSlots hhits ((hfit (Option.some_ne_none _)).congr hsame) hmain hs₃
      exact ⟨hok₃, hsame.trans hsame₃⟩

theorem freeFrom_eq_forManagers (i : Nat) (p : BlockPool) (ms : List SingleTypeKVCacheManager) :
    forManagers (fun _ p m => .ok ((), m.free p rid)) i p ms =
      .ok (ms.map fun _ => (), freeFrom rid p ms) := by
  induction ms generalizing i p with
  | nil => rfl
  | cons m ms ih =>
    simp only [forManagers, freeFrom, ih]
    rfl

theorem Ok.free (h : s.Ok c) : (s.free rid).Ok c ∧ SameGroups s (s.free rid) := by
  have hrun : s.eachManager (fun _ p m => .ok ((), m.free p rid)) =
      .ok (s.singleTypeManagers.map fun _ => (), s.free rid) := by
    unfold KVCacheManager.eachManager
    rw [freeFrom_eq_forManagers]
    rfl
  refine h.eachManager ?_ (fun _ _ _ => trivial) hrun
  intro i rest p m b p' m' _ hown hrun
  cases hrun
  exact hown.free

theorem Ok.mapManagers (h : s.Ok c) {g : SingleTypeKVCacheManager → SingleTypeKVCacheManager}
    (hg : ∀ {rest m}, Owned c rest s.blockPool m →
      Owned c rest s.blockPool (g m) ∧ SameStatic m (g m)) :
    ({ s with singleTypeManagers := s.singleTypeManagers.map g } : KVCacheManager).Ok c := by
  have hkey : ∀ ms : List SingleTypeKVCacheManager, ∀ rest : BlockId → Nat,
      (s.blockPool.Inv c fun b => heldBy ms b + rest b) → (∀ m ∈ ms, m.Ok) →
      (s.blockPool.Inv c fun b => heldBy (ms.map g) b + rest b) ∧ ∀ m ∈ ms.map g, m.Ok := by
    intro ms
    induction ms with
    | nil => exact fun rest hinv hok => ⟨hinv, by simp⟩
    | cons m ms ih =>
      intro rest hinv hok
      have hm : Owned c (fun b => heldBy ms b + rest b) s.blockPool m :=
        ⟨hinv.congr fun b _ => by simp only [heldBy, List.map_cons, List.sum_cons]; omega,
          hok m List.mem_cons_self⟩
      have hgm := (hg hm).1
      have hrec := ih (fun b => (g m).held b + rest b) (hgm.inv.congr fun b _ => by omega)
        fun m' hm' => hok m' (List.mem_cons_of_mem m hm')
      refine ⟨hrec.1.congr fun b _ => ?_, ?_⟩
      · simp only [heldBy, List.map_cons, List.sum_cons]
        omega
      · rw [List.map_cons, List.forall_mem_cons]
        exact ⟨hgm.ok, hrec.2⟩
  exact ⟨(hkey _ (fun _ => 0) h.inv h.managers).1, (hkey _ (fun _ => 0) h.inv h.managers).2⟩

theorem Ok.getNumCommonPrefixBlocks (h : s.Ok c) : (s.getNumCommonPrefixBlocks k rid).2.Ok c := by
  unfold KVCacheManager.getNumCommonPrefixBlocks
  split
  · simp only [List.map_map]
    refine h.mapManagers fun {rest m} hm => ?_
    simp only [Function.comp, SingleTypeKVCacheManager.getNumCommonPrefixBlocks]
    split
    · exact ⟨hm.setBlocks_self, ⟨rfl, rfl, rfl⟩⟩
    · exact ⟨hm, SameStatic.refl⟩
  · exact h

theorem Ok.takeNewBlockIds (h : s.Ok c) : s.takeNewBlockIds.2.Ok c :=
  h.mapManagers fun hm => ⟨hm.congr rfl rfl fun _ hr => hr, ⟨rfl, rfl, rfl⟩⟩

theorem Ok.newStepStarts (h : s.Ok c) : s.newStepStarts.Ok c := by
  refine h.mapManagers fun {rest m} hm => ?_
  unfold SingleTypeKVCacheManager.newStepStarts
  split
  · exact ⟨hm.congr rfl rfl fun _ hr => hr, ⟨rfl, rfl, rfl⟩⟩
  · exact ⟨hm, SameStatic.refl⟩

theorem Ok.evictBlocks (h : s.Ok k.toPoolConfig) {ids : List BlockId}
    (hok : s.evictBlocks k ids = .ok s') : s'.Ok k.toPoolConfig := by
  simp only [KVCacheManager.evictBlocks, Result.bind_eq_ok, Result.pure_eq_ok] at hok
  obtain ⟨p, hp, rfl⟩ := hok
  exact ⟨h.inv.evictBlocks hp, h.managers⟩

theorem Ok.resetPrefixCache (h : s.Ok k.toPoolConfig) :
    (s.resetPrefixCache k).2.Ok k.toPoolConfig :=
  ⟨h.inv.resetPrefixCache, h.managers⟩

theorem Ok.cacheBlocks (h : s.Ok k.toPoolConfig) {request : Request} {n : Int}
    (hok : s.cacheBlocks k request n = .ok s') : s'.Ok k.toPoolConfig := by
  unfold KVCacheManager.cacheBlocks at hok
  split at hok
  · exact (h.coordinatorCacheBlocks hok).1
  · cases hok
    exact h

theorem init_ok (hpos : 0 < k.numGpuBlocks) : k.init.Ok k.toPoolConfig := by
  have hzero : ∀ b, heldBy k.init.singleTypeManagers b = 0 := by
    intro b
    apply List.sum_eq_zero
    intro n hn
    simp only [KVCacheManagerConfig.init, List.mem_map, List.mem_mapIdx] at hn
    obtain ⟨m, ⟨i, hi, rfl⟩, rfl⟩ := hn
    rfl
  refine ⟨(init_inv hpos).congr fun b _ => (hzero b).symm, ?_⟩
  intro m hm
  simp only [KVCacheManagerConfig.init, List.mem_mapIdx] at hm
  obtain ⟨i, hi, rfl⟩ := hm
  exact ⟨fun rid b _ => Nat.zero_le 1, fun spec _ _ rid hr => absurd hr List.not_mem_nil⟩

/-! Lookups hand out valid blocks, none of them twice in one list. -/

section Lookup

variable {pool : BlockPool} {hashes : List BlockHash}

def HitsOk (c : PoolConfig) (byGroup : HitBlocks) : Prop :=
  ∀ i l, byGroup i = some l → HitOk c l

theorem HitsOk.assignColumns {q : CacheHit.Lookup} (hq : q.pool.HashOk c) (hnd : q.blockHashes.Nodup)
    {rows : List HitRow} (hrows : q.RowsOk rows) (groupIds : List Nat) {byGroup : HitBlocks}
    (h : HitsOk c byGroup) : HitsOk c (assignColumns rows groupIds byGroup) := by
  unfold Vllm.assignColumns
  induction groupIds.zipIdx generalizing byGroup with
  | nil => exact h
  | cons p ps ih =>
    apply ih
    intro i l hl
    simp only [Function.update_apply] at hl
    split at hl
    · cases hl
      exact CacheHit.column_ok hq hnd hrows p.2
    · exact h i l hl

theorem HitsOk.hybridPass (hpool : pool.HashOk k.toPoolConfig)
    (hnd : ∀ n, (blockHashesFor k.toPoolConfig n hashes).Nodup) {gs : List AttentionGroup}
    {curr curr' : Int} {byGroup byGroup' : HitBlocks} (h : HitsOk k.toPoolConfig byGroup)
    (hcurr : 0 ≤ curr) (hok : hybridPass k pool hashes gs curr byGroup = .ok (curr', byGroup')) :
    HitsOk k.toPoolConfig byGroup' ∧ 0 ≤ curr' := by
  induction gs generalizing curr byGroup with
  | nil =>
    cases hok
    exact ⟨h, hcurr⟩
  | cons g gs ih =>
    unfold KVCacheManager.hybridPass at hok
    split at hok
    · refine ih h (Int.mul_nonneg (Int.ediv_nonneg hcurr ?_) ?_) hok <;> exact Int.natCast_nonneg _
    · simp only [Result.bind_eq_ok] at hok
      obtain ⟨rows, hrows, hok⟩ := hok
      refine ih (h.assignColumns (q := k.lookup pool hashes g) hpool (hnd _) ?_ g.groupIds) ?_ hok
      · exact CacheHit.find_ok (q := k.lookup pool hashes g) hpool hrows
      · exact Int.mul_nonneg (Int.natCast_nonneg _) (Int.natCast_nonneg _)

theorem HitsOk.hybridLoop (hpool : pool.HashOk k.toPoolConfig)
    (hnd : ∀ n, (blockHashesFor k.toPoolConfig n hashes).Nodup) {fuel : Nat}
    {curr curr' : Int} {byGroup byGroup' : HitBlocks} (h : HitsOk k.toPoolConfig byGroup)
    (hcurr : 0 ≤ curr) (hok : hybridLoop k pool hashes fuel curr byGroup = .ok (curr', byGroup')) :
    HitsOk k.toPoolConfig byGroup' ∧ 0 ≤ curr' := by
  induction fuel generalizing curr byGroup with
  | zero => cases hok
  | succ fuel ih =>
    simp only [KVCacheManager.hybridLoop, Result.bind_eq_ok, Prod.exists] at hok
    obtain ⟨n, byGroup₁, hpass, hok⟩ := hok
    obtain ⟨h₁, hn⟩ := h.hybridPass hpool hnd hcurr hpass
    split at hok
    · simp only [Result.pure_eq_ok, Prod.mk.injEq] at hok
      obtain ⟨rfl, rfl⟩ := hok
      exact ⟨h₁, hcurr⟩
    split at hok
    · simp only [Result.pure_eq_ok, Prod.mk.injEq] at hok
      obtain ⟨rfl, rfl⟩ := hok
      exact ⟨h₁, hn⟩
    · exact ih h₁ hn hok

theorem HitsOk.truncateFull {n : Int} {byGroup : HitBlocks} (h : HitsOk c byGroup) :
    HitsOk c (truncateFull k n byGroup) := by
  unfold KVCacheManager.truncateFull
  split
  · split
    · intro i l hl
      simp only at hl
      split at hl
      · obtain ⟨l₀, hl₀, rfl⟩ := Option.map_eq_some_iff.mp hl
        exact (h i l₀ hl₀).sublist (List.take_sublist _ _)
      · exact h i l hl
    · exact h
  · exact h

theorem HitsOk.getD {byGroup : HitBlocks} (h : HitsOk c byGroup) (i : Nat) :
    HitOk c ((byGroup i).getD []) := by
  cases hi : byGroup i with
  | none => exact HitOk.nil
  | some l => exact h i l hi

theorem hitOk_getD {hits : List (List BlockId)} (h : ∀ l ∈ hits, HitOk c l) (i : Nat) :
    HitOk c (hits.getD i []) := by
  rw [List.getD_eq_getElem?_getD]
  cases hi : hits[i]? with
  | none => exact HitOk.nil
  | some l => exact h l (List.mem_of_getElem? hi)

theorem findLongestCacheHit_ok (hpool : pool.HashOk k.toPoolConfig) (hnd : hashes.Nodup)
    (hndFor : ∀ n, (blockHashesFor k.toPoolConfig n hashes).Nodup) {maxLength n : Int}
    (hmax : 0 ≤ maxLength) {hits : List (List BlockId)}
    (hok : findLongestCacheHit k pool hashes maxLength = .ok (hits, n)) :
    (∀ l ∈ hits, HitOk k.toPoolConfig l) ∧ 0 ≤ n := by
  unfold KVCacheManager.findLongestCacheHit at hok
  split at hok
  · split at hok
    · simp only [unitaryFind, Result.bind_eq_ok, Result.pure_eq_ok, Prod.mk.injEq] at hok
      obtain ⟨rows, hrows, rfl, rfl⟩ := hok
      refine ⟨fun l hl => ?_, Int.mul_nonneg (Int.natCast_nonneg _) (Int.natCast_nonneg _)⟩
      rw [List.mem_singleton] at hl
      subst hl
      exact CacheHit.column_ok (q := { pool, blockHashes := hashes, .. }) hpool hnd
        (CacheHit.find_ok hpool hrows) 0
    · simp only [hybridFind, Result.bind_eq_ok, Prod.exists, Result.pure_eq_ok,
        Prod.mk.injEq] at hok
      obtain ⟨m, byGroup, hloop, rfl, rfl⟩ := hok
      obtain ⟨h, hm⟩ := HitsOk.hybridLoop hpool hndFor (fun i l hl => by cases hl) hmax hloop
      refine ⟨fun l hl => ?_, hm⟩
      obtain ⟨i, -, rfl⟩ := List.mem_map.mp hl
      exact h.truncateFull.getD i
  · cases hok
    refine ⟨fun l hl => ?_, Int.le_refl 0⟩
    obtain ⟨_, -, rfl⟩ := List.mem_map.mp hl
    exact HitOk.nil

end Lookup

theorem Ok.getComputedBlocks (h : s.Ok k.toPoolConfig) {hasher : BlockHasher}
    (hcf : hasher.CollisionFree) {request : Request} (hr : request.Linked hasher)
    (hpos : 0 < request.numTokens) {hits : List (List BlockId)} {n : Int}
    (hok : s.getComputedBlocks k request = .ok (hits, n)) :
    (∀ i, HitOk k.toPoolConfig (hits.getD i [])) ∧ 0 ≤ n := by
  unfold KVCacheManager.getComputedBlocks at hok
  split at hok
  · cases hok
    refine ⟨hitOk_getD fun l hl => ?_, Int.le_refl 0⟩
    obtain ⟨_, -, rfl⟩ := List.mem_map.mp hl
    exact HitOk.nil
  · obtain ⟨hhits, hn⟩ := findLongestCacheHit_ok h.inv.hash (hr.nodup hcf)
      (hr.blockHashesFor_nodup hcf k.toPoolConfig) (by omega) hok
    exact ⟨hitOk_getD hhits, hn⟩

end KVCacheManager

end Vllm
