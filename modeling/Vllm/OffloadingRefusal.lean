import Vllm.OffloadingRun

namespace Vllm

namespace ARCOffloadingManager

variable {F : Type} [TargetArith F] {κ : Type} [DecidableEq κ]
variable {m m' : ARCOffloadingManager F κ} {hashes : List κ}

def numToStore (m : ARCOffloadingManager F κ) (hashes : List κ) : Nat :=
  (hashes.filter fun h => ¬ m.t1.contains h ∧ ¬ m.t2.contains h).length

def evictableT1 (m : ARCOffloadingManager F κ) (hashes : List κ) : Nat :=
  (m.t1.items.filter (evictable hashes)).length

def evictableT2 (m : ARCOffloadingManager F κ) (hashes : List κ) : Nat :=
  (m.t2.items.filter (evictable hashes)).length

def aboveTarget (m : ARCOffloadingManager F κ) (hashes : List κ) : Nat :=
  min (m.evictableT1 hashes) ((m.t1.size : Int) - TargetArith.trunc m.targetT1Size + 1).toNat

theorem find?_none_iff {l : List (κ × BlockStatus)} :
    l.find? (evictable hashes) = none ↔ (l.filter (evictable hashes)).length = 0 := by
  rw [List.find?_eq_none, List.length_eq_zero_iff, List.filter_eq_nil_iff]

theorem length_filter_erase {d : Dict κ BlockStatus} {e : κ × BlockStatus} (he : e ∈ d.items)
    (hev : evictable hashes e = true) :
    (d.items.filter (evictable hashes)).length =
      ((d.erase e.1).items.filter (evictable hashes)).length + 1 := by
  have hperm := (Dict.perm_erase (Dict.get?_eq_some.mpr he)).filter (evictable hashes)
  rw [hperm.length_eq, List.filter_cons_of_pos hev, List.length_cons]

theorem size_erase_of_mem {d : Dict κ BlockStatus} {e : κ × BlockStatus} (he : e ∈ d.items) :
    d.size = (d.erase e.1).size + 1 :=
  (Dict.perm_erase (Dict.get?_eq_some.mpr he)).length_eq

theorem candidateT1_none : m.candidateT1 hashes = none ↔ m.aboveTarget hashes = 0 := by
  unfold candidateT1 aboveTarget
  split
  · rename_i hsize
    rw [find?_none_iff, evictableT1]
    omega
  · rename_i hsize
    refine iff_of_true rfl ?_
    omega

theorem aboveTarget_evictT1 {e : κ × BlockStatus} (h : m.candidateT1 hashes = some e) :
    m.aboveTarget hashes = (m.evictT1 e).aboveTarget hashes + 1 := by
  obtain ⟨hmem, hev⟩ := mem_candidateT1 h
  have hfilter := length_filter_erase hmem hev
  have hsize := size_erase_of_mem hmem
  have hpos : m.aboveTarget hashes ≠ 0 := by
    intro hzero
    rw [candidateT1_none.mpr hzero] at h
    cases h
  unfold aboveTarget evictableT1 at hpos ⊢
  simp only [evictT1]
  omega

/-- The loop gives up exactly if it needs more than `T1` above its target and `T2` have to offer,
and then it has evicted all of these. -/
theorem evictLoop_none {n : Nat} {toEvict : List κ} {r : Option (List κ)}
    (hloop : m.evictLoop hashes n toEvict = (r, m')) :
    (r = none ↔ m.aboveTarget hashes + m.evictableT2 hashes < n) ∧
    (r = none → m'.backend.allocatedBlocksFreeList.length =
      m.backend.allocatedBlocksFreeList.length + m.aboveTarget hashes + m.evictableT2 hashes) ∧
    (r = none → m.aboveTarget hashes + m.evictableT2 hashes = 0 → m' = m) := by
  induction n generalizing m toEvict with
  | zero =>
    cases hloop
    exact ⟨iff_of_false nofun (Nat.not_lt_zero _), nofun, nofun⟩
  | succ n ih =>
    unfold evictLoop at hloop
    split at hloop
    · rename_i blockHash block hcand
      have habove := aboveTarget_evictT1 hcand
      have hfree : (m.evictT1 (blockHash, block)).backend.allocatedBlocksFreeList.length =
          m.backend.allocatedBlocksFreeList.length + 1 := List.length_append
      have hsame : (m.evictT1 (blockHash, block)).evictableT2 hashes = m.evictableT2 hashes := rfl
      obtain ⟨hnone, hlength, -⟩ := ih (m := m.evictT1 (blockHash, block)) hloop
      refine ⟨by rw [hnone]; omega, fun hr => ?_, fun _ hzero => by omega⟩
      have := hlength hr
      omega
    · rename_i hcand
      have habove := candidateT1_none.mp hcand
      split at hloop
      · rename_i blockHash block hcand'
        have hmem := List.mem_of_find?_eq_some hcand'
        have hfilter : m.evictableT2 hashes = (m.evictT2 (blockHash, block)).evictableT2 hashes + 1 :=
          length_filter_erase hmem (List.find?_some hcand')
        have hfree : (m.evictT2 (blockHash, block)).backend.allocatedBlocksFreeList.length =
            m.backend.allocatedBlocksFreeList.length + 1 := List.length_append
        have hsame : (m.evictT2 (blockHash, block)).aboveTarget hashes = m.aboveTarget hashes := rfl
        obtain ⟨hnone, hlength, -⟩ := ih (m := m.evictT2 (blockHash, block)) hloop
        refine ⟨by rw [hnone]; omega, fun hr => ?_, fun _ hzero => by omega⟩
        have := hlength hr
        omega
      · rename_i hcand'
        have hzero : m.evictableT2 hashes = 0 := find?_none_iff.mp hcand'
        cases hloop
        refine ⟨iff_of_true rfl (by omega), fun _ => by omega, fun _ _ => rfl⟩

theorem prepareStore_none : m.prepareStore hashes = .ok (none, m') ↔
    m.backend.getNumFreeBlocks + m.aboveTarget hashes + m.evictableT2 hashes < m.numToStore hashes ∧
      m' = (m.evictLoop hashes (m.numToStore hashes - m.backend.getNumFreeBlocks) []).2 := by
  unfold prepareStore numToStore
  obtain ⟨toStore, htoStore⟩ : ∃ l, l = hashes.filter fun h =>
      ¬ m.t1.contains h ∧ ¬ m.t2.contains h := ⟨_, rfl⟩
  simp only [← htoStore]
  split
  · rename_i hnil
    rw [hnil]
    exact iff_of_false (fun h => by cases h) fun h => Nat.not_lt_zero _ h.1
  · split
    · rename_i m₁ hloop
      have hnone := (evictLoop_none hloop).1.mp rfl
      rw [hloop]
      constructor
      · intro h
        cases h
        exact ⟨by omega, rfl⟩
      · rintro ⟨-, rfl⟩
        rfl
    · rename_i toEvict m₁ hloop
      have hsome := mt (evictLoop_none hloop).1.mpr (fun h => by cases h)
      constructor
      · intro h
        simp only [Result.bind_eq_ok, Result.pure_eq_ok, Prod.mk.injEq, reduceCtorEq, false_and,
          and_false, exists_const] at h
        obtain ⟨-, hfalse⟩ := h
        exact hfalse.elim
      · rintro ⟨hfull, -⟩
        omega

def numEvictable (m : ARCOffloadingManager F κ) (hashes : List κ) : Nat :=
  (m.live.filter (evictable hashes)).length

omit [TargetArith F] in
theorem numEvictable_eq (m : ARCOffloadingManager F κ) (hashes : List κ) :
    m.numEvictable hashes = m.evictableT1 hashes + m.evictableT2 hashes := by
  rw [numEvictable, live, List.filter_append, List.length_append]
  rfl

/-- A store is refused exactly if there is no room for it, and then nothing changes. -/
def RefusalExact (m : ARCOffloadingManager F κ) (hashes : List κ) : Prop :=
  ((∃ m', m.prepareStore hashes = .ok (none, m')) ↔
    m.backend.getNumFreeBlocks + m.numEvictable hashes < m.numToStore hashes) ∧
  ∀ m', m.prepareStore hashes = .ok (none, m') → m' = m

/-- What `T1` keeps up to its target size does not matter: the other blocks are enough, or there are
no others and all of `T1` would not be enough. -/
def TargetHarmless (m : ARCOffloadingManager F κ) (hashes : List κ) : Prop :=
  m.numToStore hashes ≤
    m.backend.getNumFreeBlocks + m.aboveTarget hashes + m.evictableT2 hashes ∨
  m.aboveTarget hashes + m.evictableT2 hashes = 0 ∧
    m.backend.getNumFreeBlocks + m.evictableT1 hashes < m.numToStore hashes

instance (m : ARCOffloadingManager F κ) (hashes : List κ) : Decidable (m.TargetHarmless hashes) :=
  inferInstanceAs (Decidable (_ ∨ _))

theorem refusalExact_iff : m.RefusalExact hashes ↔ m.TargetHarmless hashes := by
  have habove : m.aboveTarget hashes ≤ m.evictableT1 hashes := Nat.min_le_left _ _
  obtain ⟨⟨r, m₁⟩, hloop⟩ : ∃ p, p =
      m.evictLoop hashes (m.numToStore hashes - m.backend.getNumFreeBlocks) [] := ⟨_, rfl⟩
  obtain ⟨hnone, hlength, hsame⟩ := evictLoop_none hloop.symm
  unfold RefusalExact TargetHarmless
  simp only [prepareStore_none, ← hloop, numEvictable_eq]
  constructor
  · rintro ⟨hiff, hunchanged⟩
    by_cases hfew : m.numToStore hashes ≤
        m.backend.getNumFreeBlocks + m.aboveTarget hashes + m.evictableT2 hashes
    · exact .inl hfew
    · have hm₁ := hunchanged m₁ ⟨by omega, rfl⟩
      have hfull := hiff.mp ⟨m₁, by omega, rfl⟩
      have hgrown := hlength (hnone.mpr (by omega))
      rw [hm₁] at hgrown
      exact .inr ⟨by omega, by omega⟩
  · rintro (henough | ⟨hzero, hfull⟩)
    · refine ⟨iff_of_false ?_ (by omega), ?_⟩
      · rintro ⟨m', hlt, -⟩
        omega
      · rintro m' ⟨hlt, -⟩
        omega
    · refine ⟨iff_of_true ⟨m₁, by omega, rfl⟩ (by omega), ?_⟩
      rintro m' ⟨-, rfl⟩
      exact hsame (hnone.mpr (by omega)) hzero

end ARCOffloadingManager

namespace LRUOffloadingManager

variable {κ : Type} [DecidableEq κ]

def RefusalExact (m : LRUOffloadingManager κ) (hashes : List κ) : Prop :=
  ((∃ m', m.prepareStore hashes = .ok (none, m')) ↔
    m.backend.getNumFreeBlocks + m.numEvictable hashes < m.numToStore hashes) ∧
  ∀ m', m.prepareStore hashes = .ok (none, m') → m' = m

theorem refusalExact (m : LRUOffloadingManager κ) (hashes : List κ) : m.RefusalExact hashes := by
  unfold RefusalExact
  simp only [prepareStore_none]
  refine ⟨⟨?_, fun hfull => ⟨m, hfull, rfl⟩⟩, fun m' h => h.2⟩
  rintro ⟨m', hfull, -⟩
  exact hfull

end LRUOffloadingManager

section Refusals

variable {F : Type} [TargetArith F] {κ : Type} [DecidableEq κ]

/-- The LRU manager refuses exactly what has no room and changes nothing then, in every state; the
ARC manager does so exactly if the target size of `T1` does no harm. -/
theorem refusals (lru : LRUOffloadingManager κ) (arc : ARCOffloadingManager F κ) (hashes : List κ) :
    lru.RefusalExact hashes ∧ (arc.RefusalExact hashes ↔ arc.TargetHarmless hashes) :=
  ⟨lru.refusalExact hashes, ARCOffloadingManager.refusalExact_iff⟩

def ghostHits : List (OffloadOp Nat) :=
  [.prepareStore [1], .completeStore [1] true, .prepareStore [2], .completeStore [2] true,
   .prepareStore [3], .completeStore [3] true, .touch [1], .touch [1]]

/-- Both stored blocks could be evicted for two new ones. One is, and then the store is refused. -/
theorem not_refusalExact_ghostHits : ∃ m,
    runSteps (ARCOffloadingManager.step (F := ℚ)) (.init (.init 16 2) false) ghostHits = .ok m ∧
      ¬ m.RefusalExact [4, 5] := by
  refine ⟨_, rfl, fun h => ?_⟩
  exact absurd (ARCOffloadingManager.refusalExact_iff.mp h) (by decide +kernel)

end Refusals

end Vllm
