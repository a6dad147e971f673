import Vllm.OffloadingLaws

namespace Vllm

namespace ARCOffloadingManager

variable {F : Type} [TargetArith F] {κ : Type} [DecidableEq κ]
variable {m m' : ARCOffloadingManager F κ} {hashes : List κ} {k : κ} {block : BlockStatus}

def live (m : ARCOffloadingManager F κ) : List (κ × BlockStatus) := m.t1.items ++ m.t2.items

def Apart (m : ARCOffloadingManager F κ) : Prop :=
  [m.t1.keys, m.t2.keys, m.b1.keys, m.b2.keys].Pairwise List.Disjoint

omit [TargetArith F] [DecidableEq κ] in
theorem apart_iff : m.Apart ↔ ∀ k,
    (k ∈ m.t1.keys → k ∉ m.t2.keys ∧ k ∉ m.b1.keys ∧ k ∉ m.b2.keys) ∧
    (k ∈ m.t2.keys → k ∉ m.b1.keys ∧ k ∉ m.b2.keys) ∧ (k ∈ m.b1.keys → k ∉ m.b2.keys) := by
  simp only [Apart, List.pairwise_cons, List.mem_cons, List.not_mem_nil, or_false, forall_eq_or_imp,
    forall_eq, List.Disjoint, List.Pairwise.nil, and_true, false_imp_iff, implies_true]
  grind

structure Inv (numBlocks : Nat) (m : ARCOffloadingManager F κ) : Prop where
  owned : CPUBackend.Owned m.backend (owners m.live)
  apart : m.Apart
  numBlocks : m.backend.numBlocks = numBlocks

structure Same (m m' : ARCOffloadingManager F κ) : Prop where
  backend : m'.backend = m.backend
  owners : owners m'.live = owners m.live
  t1 : m'.t1.keys = m.t1.keys
  t2 : m'.t2.keys = m.t2.keys
  b1 : m'.b1 = m.b1
  b2 : m'.b2 = m.b2

section Same

omit [TargetArith F] [DecidableEq κ]

theorem Same.refl (m : ARCOffloadingManager F κ) : Same m m := ⟨rfl, rfl, rfl, rfl, rfl, rfl⟩

theorem Same.trans {m'' : ARCOffloadingManager F κ} (h : Same m m') (h' : Same m' m'') :
    Same m m'' :=
  ⟨h'.backend.trans h.backend, h'.owners.trans h.owners, h'.t1.trans h.t1, h'.t2.trans h.t2,
    h'.b1.trans h.b1, h'.b2.trans h.b2⟩

theorem Same.inv {numBlocks : Nat} (h : Same m m') (hinv : Inv numBlocks m) : Inv numBlocks m' where
  owned := by
    rw [h.backend, h.owners]
    exact hinv.owned
  apart := by
    rw [Apart, h.t1, h.t2, h.b1, h.b2]
    exact hinv.apart
  numBlocks := by
    rw [h.backend]
    exact hinv.numBlocks

end Same

omit [TargetArith F]

theorem get?_eq_some : m.get? k = some block ↔
    m.t1.get? k = some block ∨ m.t1.get? k = none ∧ m.t2.get? k = some block := by
  unfold get?
  cases m.t1.get? k with
  | none => simp
  | some b => simp

theorem same_update (h : m.get? k = some block) (n : Int) :
    Same m (m.update k (block.setRefCnt n)) := by
  have hfst : ∀ {d : Dict κ BlockStatus}, d.get? k = some block →
      (d.set k (block.setRefCnt n)).keys = d.keys :=
    fun hd => Dict.map_items_set (f := Prod.fst) hd rfl
  have hid : (block.setRefCnt n).blockId = block.blockId := rfl
  unfold update
  rcases get?_eq_some.mp h with ht1 | ⟨ht1, ht2⟩
  · rw [if_pos (Dict.contains_iff.mpr (Dict.mem_keys.mpr ⟨block, ht1⟩))]
    refine ⟨rfl, ?_, hfst ht1, rfl, rfl, rfl⟩
    simp only [live, owners_append]
    rw [owners_set ht1 hid]
  · have hnot : ¬ m.t1.contains k = true := by
      rw [Dict.contains, ht1]
      exact Bool.false_ne_true
    rw [if_neg hnot]
    refine ⟨rfl, ?_, rfl, hfst ht2, rfl, rfl⟩
    simp only [live, owners_append]
    rw [owners_set ht2 hid]

theorem same_prepareLoad {spec : List Nat} (h : m.prepareLoad hashes = .ok (spec, m')) :
    Same m m' := by
  induction hashes generalizing m spec with
  | nil =>
    cases h
    exact Same.refl _
  | cons blockHash hashes ih =>
    unfold prepareLoad at h
    split at h
    · cases h
    · rename_i block hblock
      simp only [Result.bind_eq_ok, Result.pure_eq_ok, Prod.mk.injEq] at h
      obtain ⟨-, -, ⟨spec', m''⟩, hrest, -, rfl⟩ := h
      exact (same_update hblock _).trans (ih hrest)

theorem same_completeLoad (h : m.completeLoad hashes = .ok m') : Same m m' := by
  induction hashes generalizing m with
  | nil =>
    cases h
    exact Same.refl _
  | cons blockHash hashes ih =>
    unfold completeLoad at h
    split at h
    · cases h
    · rename_i block hblock
      simp only [Result.bind_eq_ok] at h
      obtain ⟨-, -, hrest⟩ := h
      exact (same_update hblock _).trans (ih hrest)

theorem same_storeSuccess (m : ARCOffloadingManager F κ) (hashes : List κ) :
    Same m (m.storeSuccess hashes).2 := by
  induction hashes generalizing m with
  | nil => exact Same.refl m
  | cons blockHash hashes ih =>
    unfold storeSuccess
    split
    · exact ih m
    · rename_i block hblock
      split
      · exact ih m
      · exact (same_update hblock _).trans (ih _)

variable {numBlocks : Nat}

omit [DecidableEq κ] in
theorem Inv.moved (h : Inv numBlocks m) (hbackend : m'.backend = m.backend)
    (hlive : m.live.Perm m'.live) (hapart : m'.Apart) :
    Inv numBlocks m' ∧ m.live.Perm m'.live := by
  refine ⟨⟨?_, hapart, ?_⟩, hlive⟩
  · rw [hbackend]
    exact h.owned.perm (hlive.map _)
  · rw [hbackend]
    exact h.numBlocks

theorem inv_touchOne [TargetArith F] (h : Inv numBlocks m) (k : κ) :
    Inv numBlocks (m.touchOne k) ∧ m.live.Perm (m.touchOne k).live := by
  have hapart := apart_iff.mp h.apart
  unfold touchOne
  split
  · rename_i block ht1
    have hmem : k ∈ m.t1.keys := Dict.mem_keys.mpr ⟨block, ht1⟩
    split
    · have ht2 : m.t2.get? k = none := Dict.get?_eq_none.mpr ((hapart k).1 hmem).1
      refine h.moved rfl ?_ (apart_iff.mpr fun k' => ?_)
      · simp only [live, Dict.items_set_new ht2]
        refine ((Dict.perm_erase ht1).append_right _).trans ?_
        rw [← List.append_assoc]
        exact List.perm_append_singleton _ _ |>.symm
      · simp only [Dict.mem_keys_erase, Dict.mem_keys_set]
        grind
    · refine h.moved rfl ((m.t1.perm_moveToEnd k).symm.append_right _) (apart_iff.mpr fun k' => ?_)
      simp only [Dict.mem_keys_moveToEnd]
      exact hapart k'
  · split
    · refine h.moved rfl ((m.t2.perm_moveToEnd k).symm.append_left _) (apart_iff.mpr fun k' => ?_)
      simp only [Dict.mem_keys_moveToEnd]
      exact hapart k'
    · split
      · refine h.moved rfl (.refl _) (apart_iff.mpr fun k' => ?_)
        simp only [Dict.mem_keys_moveToEnd]
        exact hapart k'
      · split
        · refine h.moved rfl (.refl _) (apart_iff.mpr fun k' => ?_)
          simp only [Dict.mem_keys_moveToEnd]
          exact hapart k'
        · exact ⟨h, .refl _⟩

theorem inv_touch [TargetArith F] (h : Inv numBlocks m) (hashes : List κ) :
    Inv numBlocks (m.touch hashes) ∧ m.live.Perm (m.touch hashes).live := by
  unfold touch
  induction hashes.reverse generalizing m with
  | nil => exact ⟨h, .refl _⟩
  | cons k l ih =>
    obtain ⟨hone, hperm⟩ := inv_touchOne h k
    exact (ih hone).imp_right hperm.trans

/-- The state after an eviction from `T1`, which becomes a ghost. -/
def evictT1 (m : ARCOffloadingManager F κ) (e : κ × BlockStatus) : ARCOffloadingManager F κ :=
  { m with
    t1 := m.t1.erase e.1
    b1 := m.b1.set e.1 ()
    backend := m.backend.free e.2 }

def evictT2 (m : ARCOffloadingManager F κ) (e : κ × BlockStatus) : ARCOffloadingManager F κ :=
  { m with
    t2 := m.t2.erase e.1
    b2 := m.b2.set e.1 ()
    backend := m.backend.free e.2 }

theorem inv_evictT1 {e : κ × BlockStatus} (h : Inv numBlocks m) (he : e ∈ m.t1.items) :
    Inv numBlocks (m.evictT1 e) ∧ m.live.Perm (e :: (m.evictT1 e).live) := by
  have hget : m.t1.get? e.1 = some e.2 := Dict.get?_eq_some.mpr he
  have hperm : m.live.Perm (e :: (m.evictT1 e).live) := (Dict.perm_erase hget).append_right _
  refine ⟨⟨(h.owned.perm (hperm.map _)).free, apart_iff.mpr fun k' => ?_, h.numBlocks⟩, hperm⟩
  have hmem : e.1 ∈ m.t1.keys := Dict.mem_keys.mpr ⟨e.2, hget⟩
  have hapart := apart_iff.mp h.apart
  simp only [evictT1, Dict.mem_keys_erase, Dict.mem_keys_set]
  grind

theorem inv_evictT2 {e : κ × BlockStatus} (h : Inv numBlocks m) (he : e ∈ m.t2.items) :
    Inv numBlocks (m.evictT2 e) ∧ m.live.Perm (e :: (m.evictT2 e).live) := by
  have hget : m.t2.get? e.1 = some e.2 := Dict.get?_eq_some.mpr he
  have hperm : m.live.Perm (e :: (m.evictT2 e).live) :=
    ((Dict.perm_erase hget).append_left _).trans List.perm_middle
  refine ⟨⟨(h.owned.perm (hperm.map _)).free, apart_iff.mpr fun k' => ?_, h.numBlocks⟩, hperm⟩
  have hmem : e.1 ∈ m.t2.keys := Dict.mem_keys.mpr ⟨e.2, hget⟩
  have hapart := apart_iff.mp h.apart
  simp only [evictT2, Dict.mem_keys_erase, Dict.mem_keys_set]
  grind

theorem mem_candidateT1 [TargetArith F] {e : κ × BlockStatus}
    (h : m.candidateT1 hashes = some e) : e ∈ m.t1.items ∧ evictable hashes e = true := by
  unfold candidateT1 at h
  split at h
  · exact ⟨List.mem_of_find?_eq_some h, List.find?_some h⟩
  · cases h

theorem inv_evictLoop [TargetArith F] {n : Nat} {toEvict : List κ} {r : Option (List κ)}
    (h : Inv numBlocks m) (hloop : m.evictLoop hashes n toEvict = (r, m')) :
    Inv numBlocks m' ∧ ∃ gone : List (κ × BlockStatus), (∀ e ∈ gone, e.2.refCnt = 0) ∧
      m.live.Perm (gone ++ m'.live) ∧
      ∀ l, r = some l → l = toEvict ++ gone.map Prod.fst ∧ gone.length = n := by
  induction n generalizing m toEvict with
  | zero =>
    cases hloop
    refine ⟨h, [], nofun, .refl _, fun l hl => ?_⟩
    cases hl
    exact ⟨(List.append_nil _).symm, rfl⟩
  | succ n ih =>
    -- one eviction, and the rest of the loop
    have hnext : ∀ (e : κ × BlockStatus) (m₁ : ARCOffloadingManager F κ),
        evictable hashes e = true → Inv numBlocks m₁ → m.live.Perm (e :: m₁.live) →
        m₁.evictLoop hashes n (toEvict ++ [e.1]) = (r, m') →
        Inv numBlocks m' ∧ ∃ gone : List (κ × BlockStatus), (∀ e ∈ gone, e.2.refCnt = 0) ∧
          m.live.Perm (gone ++ m'.live) ∧
          ∀ l, r = some l → l = toEvict ++ gone.map Prod.fst ∧ gone.length = n + 1 := by
      intro e m₁ he hinv hperm hrest
      obtain ⟨hinv', gone, hunused, hperm', hl⟩ := ih hinv hrest
      refine ⟨hinv', e :: gone, ?_, hperm.trans (hperm'.cons e), fun l hr => ?_⟩
      · intro e' he'
        rcases List.mem_cons.mp he' with rfl | he'
        · exact (of_decide_eq_true he).1
        · exact hunused e' he'
      · obtain ⟨hl, hlength⟩ := hl l hr
        refine ⟨?_, congrArg (· + 1) hlength⟩
        rw [hl, List.append_assoc]
        rfl
    unfold evictLoop at hloop
    split at hloop
    · rename_i blockHash block hcand
      obtain ⟨hmem, he⟩ := mem_candidateT1 hcand
      obtain ⟨hinv, hperm⟩ := inv_evictT1 h hmem
      exact hnext _ _ he hinv hperm hloop
    · split at hloop
      · rename_i blockHash block hcand
        obtain ⟨hinv, hperm⟩ := inv_evictT2 h (List.mem_of_find?_eq_some hcand)
        exact hnext _ _ (List.find?_some hcand) hinv hperm hloop
      · cases hloop
        exact ⟨h, [], nofun, .refl _, nofun⟩

omit [DecidableEq κ] in
theorem inv_boundGhosts (h : Inv numBlocks m) : Inv numBlocks m.boundGhosts := by
  have hapart := apart_iff.mp h.apart
  refine ⟨h.owned, apart_iff.mpr fun k => ?_, h.numBlocks⟩
  have hb1 : k ∈ m.boundGhosts.b1.keys → k ∈ m.b1.keys := Dict.mem_keys_popFirst
  have hb2 : k ∈ m.boundGhosts.b2.keys → k ∈ m.b2.keys := Dict.mem_keys_popFirst
  have ht1 : m.boundGhosts.t1 = m.t1 := rfl
  have ht2 : m.boundGhosts.t2 = m.t2 := rfl
  rw [ht1, ht2]
  grind

theorem apart_foldl_insert {es : List (κ × BlockStatus)} (h : m.Apart)
    (hnew : ∀ e ∈ es, e.1 ∉ m.t2.keys) : (es.foldl insert m).Apart := by
  induction es generalizing m with
  | nil => exact h
  | cons e es ih =>
    refine ih (apart_iff.mpr fun k => ?_) fun e' he' => hnew e' (List.mem_cons_of_mem e he')
    have hapart := apart_iff.mp h
    have hne := hnew e List.mem_cons_self
    simp only [insert, Dict.mem_keys_erase, Dict.mem_keys_set]
    grind

theorem foldl_insert (es : List (κ × BlockStatus)) (m : ARCOffloadingManager F κ) :
    (es.foldl insert m).t1 = es.foldl (fun d e => d.set e.1 e.2) m.t1 ∧
      (es.foldl insert m).t2 = m.t2 ∧ (es.foldl insert m).backend = m.backend := by
  induction es generalizing m with
  | nil => exact ⟨rfl, rfl, rfl⟩
  | cons e es ih => exact ih (m.insert e)

omit [DecidableEq κ] in
theorem mem_live_keys {e : κ × BlockStatus} (he : e ∈ m.live) :
    e.1 ∈ m.t1.keys ∨ e.1 ∈ m.t2.keys := by
  rcases List.mem_append.mp he with he | he
  · exact .inl (List.mem_map_of_mem he)
  · exact .inr (List.mem_map_of_mem he)

theorem inv_insertNew {toStore : List κ}
    (h : Inv numBlocks m) (hsub : ∀ k ∈ toStore, k ∉ m.t1.keys ∧ k ∉ m.t2.keys)
    (hnodup : toStore.Nodup) (hroom : toStore.length ≤ m.backend.getNumFreeBlocks) :
    ∃ backend, m.backend.allocateBlocks toStore.length =
        .ok ((newIds m.backend toStore.length).map BlockStatus.new, backend) ∧
      ∀ events, let es := toStore.zip ((newIds m.backend toStore.length).map BlockStatus.new)
        let m' := es.foldl insert { m with backend, events }
        Inv numBlocks m' ∧ m'.live.Perm (m.live ++ es) := by
  have hnew : ((owners m.live).map Prod.fst ++ toStore).Nodup := by
    rw [List.nodup_append]
    refine ⟨h.owned.keys, hnodup, ?_⟩
    rintro k hk _ hk' rfl
    rw [map_fst_owners] at hk
    obtain ⟨e, he, rfl⟩ := List.mem_map.mp hk
    rcases mem_live_keys he with ht1 | ht2
    · exact (hsub _ hk').1 ht1
    · exact (hsub _ hk').2 ht2
  obtain ⟨backend, hok, hnum, hown⟩ := h.owned.allocateBlocks hnew hroom
  refine ⟨backend, hok, fun events => ?_⟩
  obtain ⟨es, hes⟩ : ∃ es, es =
      toStore.zip ((newIds m.backend toStore.length).map BlockStatus.new) := ⟨_, rfl⟩
  have hlength := length_newIds hroom
  have hfst : es.map Prod.fst = toStore := by
    rw [hes]
    exact List.map_fst_zip (by rw [List.length_map]; omega)
  have hstore : ∀ e ∈ es, e.1 ∈ toStore := fun e he => hfst ▸ List.mem_map_of_mem he
  obtain ⟨m', hm'⟩ : ∃ m' : ARCOffloadingManager F κ,
      m' = es.foldl insert { m with backend, events } := ⟨_, rfl⟩
  obtain ⟨ht1, ht2, hbackend⟩ := foldl_insert es { m with backend, events }
  rw [← hm'] at ht1 ht2 hbackend
  have hitems : m'.t1.items = m.t1.items ++ es := by
    rw [ht1]
    refine Dict.items_foldl_set ?_
    rw [hfst, List.nodup_append]
    refine ⟨m.t1.nodup, hnodup, ?_⟩
    rintro k hk _ hk' rfl
    exact (hsub k hk').1 hk
  have hlive : m'.live.Perm (m.live ++ es) := by
    rw [ARCOffloadingManager.live, hitems, ht2, List.append_assoc, ARCOffloadingManager.live,
      List.append_assoc]
    exact List.perm_append_comm.append_left _
  have hapart : m'.Apart := by
    rw [hm']
    exact apart_foldl_insert (m := { m with backend, events }) h.apart
      fun e he => (hsub _ (hstore e he)).2
  simp only [← hes, ← hm']
  refine ⟨⟨?_, hapart, ?_⟩, hlive⟩
  · rw [hbackend]
    refine CPUBackend.Owned.perm ?_ (hlive.symm.map _)
    rw [List.map_append]
    have hzip := owners_new toStore (newIds m.backend toStore.length)
    rw [← hes] at hzip
    rw [← hzip] at hown
    exact hown
  · rw [hbackend]
    exact hnum.trans h.numBlocks

theorem prepareStore_result [TargetArith F] {r : Option (PrepareStoreOutput κ)}
    (h : Inv numBlocks m) (hnodup : hashes.Nodup) (hok : m.prepareStore hashes = .ok (r, m')) :
    Inv numBlocks m' ∧ Kept m.live m'.live r := by
  unfold prepareStore at hok
  obtain ⟨toStore, htoStore⟩ : ∃ l, l = hashes.filter fun h =>
      ¬ m.t1.contains h ∧ ¬ m.t2.contains h := ⟨_, rfl⟩
  simp only [← htoStore] at hok
  split at hok
  · cases hok
    refine ⟨h, ?_, fun e he _ => he, ?_⟩
    · rintro _ ⟨⟩ k hk
      cases hk
    · rintro _ ⟨⟩ e _ _
      exact ⟨List.not_mem_nil, List.not_mem_nil⟩
  split at hok
  · rename_i m₁ hloop
    cases hok
    obtain ⟨hinv₁, gone, hunused, hperm, -⟩ := inv_evictLoop h hloop
    exact ⟨hinv₁, nofun, fun e he hbusy => mem_of_unused hperm hunused he hbusy, nofun⟩
  · rename_i toEvict m₁ hloop
    obtain ⟨hinv₁, gone, hunused, hperm, hl⟩ := inv_evictLoop h hloop
    obtain ⟨hgone, hlength⟩ := hl toEvict rfl
    rw [List.nil_append] at hgone
    subst hgone
    have hroom : toStore.length ≤ m₁.boundGhosts.backend.getNumFreeBlocks := by
      have hcount := h.owned.conserved.count
      have hcount₁ := hinv₁.owned.conserved.count
      have hsplit := hperm.length_eq
      rw [List.length_append] at hsplit
      rw [h.numBlocks] at hcount
      rw [hinv₁.numBlocks] at hcount₁
      have hsame : m₁.boundGhosts.backend = m₁.backend := rfl
      rw [hsame]
      omega
    have habsent : ∀ k ∈ toStore, k ∉ m.t1.keys ∧ k ∉ m.t2.keys := by
      intro k hk
      rw [htoStore] at hk
      have := of_decide_eq_true (List.mem_filter.mp hk).2
      rw [Dict.contains_iff, Dict.contains_iff] at this
      exact this
    have hsub : ∀ k ∈ toStore, k ∉ m₁.boundGhosts.t1.keys ∧ k ∉ m₁.boundGhosts.t2.keys := by
      intro k hk
      have hnot : ∀ e ∈ m₁.live, e.1 ≠ k := by
        rintro e he rfl
        have hmem := mem_live_keys (hperm.mem_iff.mpr (List.mem_append_right gone he))
        exact hmem.elim (habsent _ hk).1 (habsent _ hk).2
      constructor
      · intro hmem
        obtain ⟨e, he, heq⟩ := List.mem_map.mp hmem
        exact hnot e (List.mem_append_left _ he) heq
      · intro hmem
        obtain ⟨e, he, heq⟩ := List.mem_map.mp hmem
        exact hnot e (List.mem_append_right _ he) heq
    obtain ⟨backend, halloc, hinsert⟩ := inv_insertNew (inv_boundGhosts hinv₁) hsub
      (htoStore ▸ hnodup.filter _) hroom
    simp only [halloc, Result.ok_bind, Result.bind_eq_ok, Result.pure_eq_ok, Prod.mk.injEq] at hok
    obtain ⟨-, -, rfl, rfl⟩ := hok
    obtain ⟨hinv', hlive'⟩ := hinsert
      (appendEvent m₁.boundGhosts.events m₁.boundGhosts.backend (gone.map Prod.fst) true)
    refine ⟨hinv', ?_⟩
    have hids : CPUBackend.getLoadStoreSpec
        ((newIds m₁.boundGhosts.backend toStore.length).map BlockStatus.new) =
        newIds m₁.boundGhosts.backend toStore.length := by
      rw [CPUBackend.getLoadStoreSpec, List.map_map]
      exact List.map_id _
    rw [hids]
    exact kept_of_perm h.owned hperm hunused hlive' (length_newIds hroom).le hinv'.owned

theorem inv_dropOne (h : Inv numBlocks m)
    (hready : ∀ block, m.get? k = some block → block.isReady = false) :
    Inv numBlocks (m.dropOne k) := by
  have hapart := apart_iff.mp h.apart
  unfold dropOne
  split
  · rename_i block ht1
    have hmem : k ∈ m.t1.keys := Dict.mem_keys.mpr ⟨block, ht1⟩
    rw [hready block (get?_eq_some.mpr (.inl ht1))]
    have hperm : m.live.Perm ((k, block) :: ((m.t1.erase k).items ++ m.t2.items)) :=
      (Dict.perm_erase ht1).append_right _
    refine ⟨(h.owned.perm (hperm.map _)).free, apart_iff.mpr fun k' => ?_, h.numBlocks⟩
    simp only [Dict.mem_keys_erase]
    grind
  · rename_i ht1
    split
    · rename_i block ht2
      have hmem : k ∈ m.t2.keys := Dict.mem_keys.mpr ⟨block, ht2⟩
      rw [hready block (get?_eq_some.mpr (.inr ⟨ht1, ht2⟩))]
      have hperm : m.live.Perm ((k, block) :: (m.t1.items ++ (m.t2.erase k).items)) :=
        ((Dict.perm_erase ht2).append_left _).trans List.perm_middle
      refine ⟨(h.owned.perm (hperm.map _)).free, apart_iff.mpr fun k' => ?_, h.numBlocks⟩
      simp only [Dict.mem_keys_erase]
      grind
    · exact h

theorem get?_dropOne (m : ARCOffloadingManager F κ) (h : m.Apart) (k k' : κ) :
    (m.dropOne k).get? k' = if k = k' then none else m.get? k' := by
  have hapart := apart_iff.mp h
  unfold dropOne
  split
  · rename_i block ht1
    have ht2 : m.t2.get? k = none :=
      Dict.get?_eq_none.mpr ((hapart k).1 (Dict.mem_keys.mpr ⟨block, ht1⟩)).1
    simp only [get?, Dict.get?_erase]
    split
    · rename_i hk
      rw [← hk, ht2]
      rfl
    · rfl
  · rename_i ht1
    split
    · simp only [get?, Dict.get?_erase]
      split
      · rename_i hk
        rw [← hk, ht1]
        rfl
      · rfl
    · rename_i ht2
      simp only [get?]
      split
      · rename_i hk
        rw [← hk, ht1, ht2]
        rfl
      · rfl

theorem inv_foldl_dropOne (h : Inv numBlocks m)
    (hready : ∀ k ∈ hashes, ∀ block, m.get? k = some block → block.isReady = false) :
    Inv numBlocks (hashes.foldl dropOne m) := by
  induction hashes generalizing m with
  | nil => exact h
  | cons k hashes ih =>
    refine ih (inv_dropOne h (hready k List.mem_cons_self)) fun k' hk' block hblock => ?_
    rw [get?_dropOne m h.apart] at hblock
    split at hblock
    · cases hblock
    · exact hready k' (List.mem_cons_of_mem k hk') block hblock

theorem inv_completeStore (h : Inv numBlocks m) (success : Bool)
    (hready : success = false → ∀ k ∈ hashes, ∀ block, m.get? k = some block →
      block.isReady = false) : Inv numBlocks (m.completeStore hashes success) := by
  unfold completeStore
  split
  · exact Same.inv ((same_storeSuccess m hashes).trans ⟨rfl, rfl, rfl, rfl, rfl, rfl⟩) h
  · rename_i hfail
    exact inv_foldl_dropOne h (hready (Bool.not_eq_true _ ▸ hfail))

theorem mem_live_iff (h : m.Apart) {e : κ × BlockStatus} : e ∈ m.live ↔ m.get? e.1 = some e.2 := by
  have hapart := (apart_iff.mp h e.1).1
  rw [get?_eq_some, live, List.mem_append, ← Dict.get?_eq_some, ← Dict.get?_eq_some]
  constructor
  · rintro (ht1 | ht2)
    · exact .inl ht1
    · refine .inr ⟨?_, ht2⟩
      by_contra hsome
      obtain ⟨block, hblock⟩ := Option.ne_none_iff_exists'.1 hsome
      exact (hapart (Dict.mem_keys.mpr ⟨block, hblock⟩)).1 (Dict.mem_keys.mpr ⟨_, ht2⟩)
  · exact Or.imp_right And.right

theorem get?_foldl_dropOne (h : Inv numBlocks m)
    (hready : ∀ k ∈ hashes, ∀ block, m.get? k = some block → block.isReady = false)
    (hk : k ∉ hashes) : (hashes.foldl dropOne m).get? k = m.get? k := by
  induction hashes generalizing m with
  | nil => rfl
  | cons k' hashes ih =>
    obtain ⟨hne, hrest⟩ := not_or.1 (mt List.mem_cons.2 hk)
    have hone := get?_dropOne m h.apart k'
    rw [List.foldl_cons, ih (inv_dropOne h (hready k' List.mem_cons_self)) ?_ hrest, hone,
      if_neg (Ne.symm hne)]
    intro k'' hk'' block hblock
    rw [hone] at hblock
    split at hblock
    · cases hblock
    · exact hready k'' (List.mem_cons_of_mem k' hk'') block hblock

end ARCOffloadingManager

end Vllm
