import Vllm.OffloadingLaws

namespace Vllm

namespace LRUOffloadingManager

variable {κ : Type} [DecidableEq κ] {m m' : LRUOffloadingManager κ} {hashes : List κ}

def live (m : LRUOffloadingManager κ) : List (κ × BlockStatus) := m.blocks.items

def Inv (numBlocks : Nat) (m : LRUOffloadingManager κ) : Prop :=
  CPUBackend.Owned m.backend (owners m.live) ∧ m.backend.numBlocks = numBlocks

def Same (m m' : LRUOffloadingManager κ) : Prop :=
  m'.backend = m.backend ∧ owners m'.live = owners m.live

omit [DecidableEq κ] in
theorem Same.inv {numBlocks : Nat} (h : Same m m') (hinv : Inv numBlocks m) : Inv numBlocks m' := by
  unfold Inv
  rw [h.1, h.2]
  exact hinv

omit [DecidableEq κ] in
theorem Same.trans {m'' : LRUOffloadingManager κ} (h : Same m m') (h' : Same m' m'') : Same m m'' :=
  ⟨h'.1.trans h.1, h'.2.trans h.2⟩

theorem same_set {blockHash : κ} {block : BlockStatus} (h : m.blocks.get? blockHash = some block)
    (n : Int) : Same m { m with blocks := m.blocks.set blockHash (block.setRefCnt n) } :=
  ⟨rfl, owners_set h rfl⟩

theorem same_prepareLoad {spec : List Nat} (h : m.prepareLoad hashes = .ok (spec, m')) :
    Same m m' := by
  induction hashes generalizing m spec with
  | nil =>
    cases h
    exact ⟨rfl, rfl⟩
  | cons blockHash hashes ih =>
    unfold prepareLoad at h
    split at h
    · cases h
    · rename_i block hblock
      simp only [Result.bind_eq_ok, Result.pure_eq_ok, Prod.mk.injEq] at h
      obtain ⟨-, -, ⟨spec', m''⟩, hrest, -, rfl⟩ := h
      exact (same_set hblock _).trans (ih hrest)

theorem same_completeLoad (h : m.completeLoad hashes = .ok m') : Same m m' := by
  induction hashes generalizing m with
  | nil =>
    cases h
    exact ⟨rfl, rfl⟩
  | cons blockHash hashes ih =>
    unfold completeLoad at h
    split at h
    · cases h
    · rename_i block hblock
      simp only [Result.bind_eq_ok] at h
      obtain ⟨-, -, hrest⟩ := h
      exact (same_set hblock _).trans (ih hrest)

theorem same_storeSuccess {stored : List κ} (h : m.storeSuccess hashes = .ok (stored, m')) :
    Same m m' := by
  induction hashes generalizing m stored with
  | nil =>
    cases h
    exact ⟨rfl, rfl⟩
  | cons blockHash hashes ih =>
    unfold storeSuccess at h
    split at h
    · cases h
    · rename_i block hblock
      split at h
      · exact ih h
      · simp only [Result.bind_eq_ok, Result.pure_eq_ok, Prod.mk.injEq] at h
        obtain ⟨⟨stored', m''⟩, hrest, -, rfl⟩ := h
        exact (same_set hblock _).trans (ih hrest)

theorem perm_touch (m : LRUOffloadingManager κ) (hashes : List κ) :
    (m.touch hashes).live.Perm m.live := by
  have hperm : ∀ (l : List κ) (d : Dict κ BlockStatus),
      (l.foldl Dict.moveToEnd d).items.Perm d.items := by
    intro l
    induction l with
    | nil => exact fun d => .refl _
    | cons k l ih => exact fun d => (ih (d.moveToEnd k)).trans (d.perm_moveToEnd k)
  exact hperm hashes.reverse m.blocks

theorem evict_eq {blockHash : κ} {block : BlockStatus} (h : m.blocks.get? blockHash = some block) :
    m.evict blockHash =
      { m with backend := m.backend.free block, blocks := m.blocks.erase blockHash } := by
  unfold evict
  rw [h]

theorem inv_evict {numBlocks : Nat} {blockHash : κ} {block : BlockStatus} (h : Inv numBlocks m)
    (hblock : m.blocks.get? blockHash = some block) : Inv numBlocks (m.evict blockHash) := by
  rw [evict_eq hblock]
  exact ⟨(h.1.perm ((Dict.perm_erase hblock).map _)).free, h.2⟩

theorem inv_storeFailure {numBlocks : Nat} (hinv : Inv numBlocks m)
    (h : m.storeFailure hashes = .ok m') : Inv numBlocks m' := by
  induction hashes generalizing m with
  | nil =>
    cases h
    exact hinv
  | cons blockHash hashes ih =>
    unfold storeFailure at h
    split at h
    · cases h
    · rename_i block hblock
      split at h
      · exact ih hinv h
      · exact ih (inv_evict hinv hblock) h

theorem mem_storeFailure {e : κ × BlockStatus} (h : m.storeFailure hashes = .ok m')
    (he : e ∈ m.live) (hready : e.1 ∈ hashes → e.2.isReady = true) : e ∈ m'.live := by
  induction hashes generalizing m with
  | nil =>
    cases h
    exact he
  | cons blockHash hashes ih =>
    have hrest : e.1 ∈ hashes → e.2.isReady = true := fun h => hready (List.mem_cons_of_mem _ h)
    unfold storeFailure at h
    split at h
    · cases h
    · rename_i block hblock
      split at h
      · exact ih h he hrest
      · rename_i hnot
        have hne : blockHash ≠ e.1 := by
          rintro rfl
          rw [Dict.get?_eq_some.mpr he] at hblock
          cases hblock
          exact hnot (hready List.mem_cons_self)
        refine ih h ?_ hrest
        rw [evict_eq hblock]
        refine Dict.get?_eq_some.mp ?_
        rw [Dict.get?_erase, if_neg hne]
        exact Dict.get?_eq_some.mpr he

theorem inv_completeStore {numBlocks : Nat} {success : Bool} (hinv : Inv numBlocks m)
    (h : m.completeStore hashes success = .ok m') : Inv numBlocks m' := by
  unfold completeStore at h
  split at h
  · simp only [Result.bind_eq_ok, Result.pure_eq_ok] at h
    obtain ⟨⟨stored, m''⟩, hstored, rfl⟩ := h
    exact (same_storeSuccess hstored).inv hinv
  · exact inv_storeFailure hinv h

theorem inv_evictAll {numBlocks : Nat} {gone : List (κ × BlockStatus)} (hinv : Inv numBlocks m)
    (hmem : ∀ e ∈ gone, e ∈ m.live) (hnodup : (gone.map Prod.fst).Nodup) :
    Inv numBlocks ((gone.map Prod.fst).foldl evict m) ∧
      m.live.Perm (gone ++ ((gone.map Prod.fst).foldl evict m).live) := by
  induction gone generalizing m with
  | nil => exact ⟨hinv, .refl _⟩
  | cons e gone ih =>
    obtain ⟨k, v⟩ := e
    have hget : m.blocks.get? k = some v := Dict.get?_eq_some.mpr (hmem _ List.mem_cons_self)
    rw [List.map_cons, List.nodup_cons] at hnodup
    have hmem' : ∀ e ∈ gone, e ∈ (m.evict k).live := by
      intro e he
      have hne : k ≠ e.1 := fun heq =>
        hnodup.1 (List.mem_map.mpr ⟨e, he, heq.symm⟩)
      rw [evict_eq hget]
      refine Dict.get?_eq_some.mp ?_
      rw [Dict.get?_erase, if_neg hne]
      exact Dict.get?_eq_some.mpr (hmem e (List.mem_cons_of_mem _ he))
    obtain ⟨hinv', hperm⟩ := ih (inv_evict hinv hget) hmem' hnodup.2
    refine ⟨hinv', (Dict.perm_erase hget).trans (List.Perm.cons _ ?_)⟩
    have hone : (m.evict k).live = (m.blocks.erase k).items := by
      rw [evict_eq hget]
      rfl
    rw [hone] at hperm
    exact hperm

/-- The number of hashes that `prepare_store` has to store. -/
def numToStore (m : LRUOffloadingManager κ) (hashes : List κ) : Nat :=
  (hashes.filter fun h => ¬ m.blocks.contains h).length

def numEvictable (m : LRUOffloadingManager κ) (hashes : List κ) : Nat :=
  (m.live.filter (evictable hashes)).length

theorem prepareStore_none : m.prepareStore hashes = .ok (none, m') ↔
    m.backend.getNumFreeBlocks + m.numEvictable hashes < m.numToStore hashes ∧ m' = m := by
  have hlength : ∀ n, ((m.live.filter (evictable hashes)).take n).length < n ↔
      m.numEvictable hashes < n := by
    intro n
    rw [List.length_take, numEvictable]
    omega
  unfold prepareStore
  simp only [List.length_map]
  split
  · rename_i hfew
    have := (hlength _).mp hfew
    rw [numToStore]
    constructor
    · intro h
      cases h
      exact ⟨by omega, rfl⟩
    · rintro ⟨-, rfl⟩
      rfl
  · rename_i henough
    have := mt (hlength _).mpr henough
    rw [numToStore]
    constructor
    · intro h
      simp only [Result.bind_eq_ok, Result.pure_eq_ok, Prod.mk.injEq, reduceCtorEq, false_and,
        and_false, exists_const] at h
      obtain ⟨-, hfalse⟩ := h
      exact hfalse.elim
    · rintro ⟨hfull, -⟩
      omega

theorem prepareStore_some {numBlocks : Nat} {out : PrepareStoreOutput κ} (hinv : Inv numBlocks m)
    (hnodup : hashes.Nodup) (h : m.prepareStore hashes = .ok (some out, m')) :
    Inv numBlocks m' ∧ Kept m.live m'.live (some out) := by
  have hkeys : (m.live.map Prod.fst).Nodup := map_fst_owners ▸ hinv.1.keys
  unfold prepareStore at h
  obtain ⟨toStore, htoStore⟩ : ∃ l, l = hashes.filter fun h => ¬ m.blocks.contains h := ⟨_, rfl⟩
  obtain ⟨gone, hgone⟩ : ∃ l, l = (m.blocks.items.filter (evictable hashes)).take
      (toStore.length - m.backend.getNumFreeBlocks) := ⟨_, rfl⟩
  simp only [← htoStore, ← hgone, List.length_map] at h
  split at h
  · cases h
  rename_i henough
  have hsub : gone.Sublist m.live := by
    rw [hgone]
    exact (List.take_sublist _ _).trans List.filter_sublist
  have hunused : ∀ e ∈ gone, e.2.refCnt = 0 := by
    intro e he
    rw [hgone] at he
    have := (List.mem_filter.mp (List.mem_of_mem_take he)).2
    exact (of_decide_eq_true this).1
  obtain ⟨hinv₁, hperm⟩ := inv_evictAll hinv (fun e he => hsub.subset he)
    (hkeys.sublist (hsub.map _))
  obtain ⟨m₁, hm₁⟩ : ∃ m₁, m₁ = (gone.map Prod.fst).foldl evict m := ⟨_, rfl⟩
  rw [← hm₁] at h hinv₁ hperm
  have hroom : toStore.length ≤ m₁.backend.getNumFreeBlocks := by
    have hcount := hinv.1.conserved.count
    have hcount₁ := hinv₁.1.conserved.count
    have hlength := hperm.length_eq
    rw [List.length_append] at hlength
    rw [hinv.2] at hcount
    rw [hinv₁.2] at hcount₁
    omega
  have hnew : ((owners m₁.live).map Prod.fst ++ toStore).Nodup := by
    rw [map_fst_owners, List.nodup_append]
    refine ⟨map_fst_owners ▸ hinv₁.1.keys, htoStore ▸ hnodup.filter _, ?_⟩
    rintro k hk _ hk' rfl
    obtain ⟨e, he, rfl⟩ := List.mem_map.mp hk
    have hlive : e ∈ m.blocks.items := hperm.mem_iff.mpr (List.mem_append_right _ he)
    rw [htoStore] at hk'
    have habsent := of_decide_eq_true (List.mem_filter.mp hk').2
    rw [Dict.contains, Dict.get?_eq_some.mpr hlive] at habsent
    exact habsent rfl
  obtain ⟨b', hok, hnum, hown⟩ := hinv₁.1.allocateBlocks hnew hroom
  rw [hok] at h
  simp only [Result.ok_bind, Result.bind_eq_ok, Result.pure_eq_ok, Prod.mk.injEq,
    Option.some_inj] at h
  obtain ⟨-, -, rfl, rfl⟩ := h
  have hlength : (newIds m₁.backend toStore.length).length = toStore.length := length_newIds hroom
  have hzip : (toStore.zip ((newIds m₁.backend toStore.length).map BlockStatus.new)).map Prod.fst =
      toStore := List.map_fst_zip (by rw [List.length_map]; omega)
  have hitems : ((toStore.zip ((newIds m₁.backend toStore.length).map BlockStatus.new)).foldl
      (fun d e => d.set e.1 e.2) m₁.blocks).items =
      m₁.live ++ toStore.zip ((newIds m₁.backend toStore.length).map BlockStatus.new) := by
    refine Dict.items_foldl_set ?_
    rw [hzip]
    rw [map_fst_owners] at hnew
    exact hnew
  have hown' : CPUBackend.Owned b' (owners (m₁.live ++
      toStore.zip ((newIds m₁.backend toStore.length).map BlockStatus.new))) := by
    rw [owners_append, owners_new]
    exact hown
  refine ⟨⟨?_, hnum.trans hinv₁.2⟩, ?_⟩
  · simp only [live, hitems]
    exact hown'
  · simp only [live, hitems]
    have hids : CPUBackend.getLoadStoreSpec ((newIds m₁.backend toStore.length).map BlockStatus.new) =
        newIds m₁.backend toStore.length := by
      rw [CPUBackend.getLoadStoreSpec, List.map_map]
      exact List.map_id _
    rw [hids]
    exact kept_of_perm hinv.1 hperm hunused (.refl _) hlength.le hown'

end LRUOffloadingManager

end Vllm
