import Vllm.BatchReplay
import Vllm.InputBatchLaws

namespace Vllm.Worker

open InputBatch

variable {F F32 G E V : Type}

structure Core [Zero F] (c : InputBatchConfig F F32)
    (requests : Dict ReqId (CachedRequestState F G E)) (b : InputBatch F F32 G E) : Prop where
  index : ∀ id i, b.reqIdToIndex.get? id = some i ↔ b.reqIds[i]? = some (some id)
  rows : ∀ i id, b.reqIds[i]? = some (some id) →
    ∃ r, requests.get? id = some r ∧ (b.row i).Holds c r
  free : ∀ i, (∀ id, b.reqIds[i]? ≠ some (some id)) →
    (b.row i).generator = none ∧ (b.row i).badWords = none
  users : ∀ l x, x ∈ b.loraUsers l ↔
    l ≠ 0 ∧ ∃ i, b.reqIds[i]? = some (some x) ∧ (b.row i).loraId = l
  idle : b.NoIdleLora
  lists : b.Lists

namespace Core

variable [Zero F] {c : InputBatchConfig F F32} {b b' : InputBatch F F32 G E}
variable {requests : Dict ReqId (CachedRequestState F G E)} {i j : Nat} {id : ReqId}

theorem injective (h : Core c requests b) (hi : b.reqIds[i]? = some (some id))
    (hj : b.reqIds[j]? = some (some id)) : i = j := by
  have hi := (h.index id i).mpr hi
  have hj := (h.index id j).mpr hj
  rw [hi] at hj
  exact Option.some.inj hj

theorem removed (h : Core c requests b) (hi : b.reqIds[i]? = some (some id))
    (hr : b.Removed i id b') : Core c requests b' := by
  have hlt := (List.getElem?_eq_some_iff.mp hi).1
  have hself : b'.reqIds[i]? = some none := by
    rw [hr.reqIds, List.getElem?_set, if_pos rfl, if_pos hlt]
  have hother : ∀ j ≠ i, b'.reqIds[j]? = b.reqIds[j]? := by
    intro j hj
    rw [hr.reqIds, List.getElem?_set, if_neg hj.symm]
  have hslot : ∀ j x, b'.reqIds[j]? = some (some x) ↔ j ≠ i ∧ b.reqIds[j]? = some (some x) := by
    intro j x
    by_cases hj : j = i
    · subst hj
      simp [hself]
    · simp [hj, hother j hj]
  constructor
  case index =>
    intro x j
    rw [hr.index, Dict.get?_erase, hslot]
    by_cases hx : id = x
    · subst hx
      simp only [if_true, reduceCtorEq, false_iff, not_and]
      intro hj hjx
      exact hj (h.injective hjx hi)
    · rw [if_neg hx, h.index x j]
      refine ⟨fun hj => ⟨?_, hj⟩, fun hj => hj.2⟩
      rintro rfl
      rw [hi] at hj
      exact hx (Option.some.inj (Option.some.inj hj))
  case rows =>
    intro j x hj
    obtain ⟨hne, hj⟩ := (hslot j x).mp hj
    rw [hr.row j hne]
    exact h.rows j x hj
  case free =>
    intro j hj
    by_cases hne : j = i
    · subst hne
      exact ⟨hr.generator, hr.badWords⟩
    · rw [hr.row j hne]
      refine h.free j fun x hx => hj x ((hslot j x).mpr ⟨hne, hx⟩)
  case users =>
    intro l x
    rw [hr.users, h.users]
    constructor
    · rintro ⟨⟨hl, j, hj, hlj⟩, hnot⟩
      have hne : j ≠ i := by
        rintro rfl
        rw [hi] at hj
        exact hnot ⟨hlj.symm, hl, (Option.some.inj (Option.some.inj hj)).symm⟩
      refine ⟨hl, j, (hslot j x).mpr ⟨hne, hj⟩, ?_⟩
      rw [hr.row j hne]
      exact hlj
    · rintro ⟨hl, j, hj, hlj⟩
      obtain ⟨hne, hj⟩ := (hslot j x).mp hj
      rw [hr.row j hne] at hlj
      refine ⟨⟨hl, j, hj, hlj⟩, ?_⟩
      rintro ⟨-, -, rfl⟩
      exact hne (h.injective hj hi)
  case idle => exact hr.idle h.idle
  case lists =>
    constructor
    · rw [hr.outputs, hr.reqIds, List.length_set]
      exact h.lists.outputs
    · rw [hr.specs, hr.reqIds, List.length_set]
      exact h.lists.specs

theorem added {r : CachedRequestState F G E} (h : Core c requests b)
    (hfree : ∀ x, b.reqIds[i]? ≠ some (some x)) (hnew : b.reqIdToIndex.get? r.reqId = none)
    (ha : b.Added c i r b') : Core c (requests.set r.reqId r) b' := by
  have hne_id : ∀ (j : Nat) x, b.reqIds[j]? = some (some x) → r.reqId ≠ x := by
    rintro j x hj rfl
    rw [(h.index _ _).mpr hj] at hnew
    cases hnew
  have hslot : ∀ (j : Nat) x, b'.reqIds[j]? = some (some x) ↔
      (j = i ∧ x = r.reqId) ∨ (j ≠ i ∧ b.reqIds[j]? = some (some x)) := by
    intro j x
    rw [ha.slots]
    by_cases hj : j = i <;> simp [hj, eq_comm]
  constructor
  case index =>
    intro x j
    rw [ha.index, Dict.get?_set, hslot]
    by_cases hx : r.reqId = x
    · subst hx
      simp only [if_true, Option.some.injEq]
      constructor
      · rintro rfl
        exact .inl ⟨rfl, trivial⟩
      · rintro (⟨rfl, -⟩ | ⟨-, hj⟩)
        · rfl
        · exact absurd rfl (hne_id j _ hj)
    · rw [if_neg hx, h.index]
      constructor
      · intro hj
        refine .inr ⟨?_, hj⟩
        rintro rfl
        exact hfree x hj
      · rintro (⟨-, rfl⟩ | ⟨-, hj⟩)
        · exact absurd rfl hx
        · exact hj
  case rows =>
    intro j x hj
    rcases (hslot j x).mp hj with ⟨rfl, rfl⟩ | ⟨hne, hj⟩
    · obtain ⟨hg, hb⟩ := h.free j hfree
      exact ⟨r, by simp, ha.holds hg hb⟩
    · rw [ha.row j hne, Dict.get?_set, if_neg (hne_id j x hj)]
      exact h.rows j x hj
  case free =>
    intro j hj
    have hne : j ≠ i := by
      rintro rfl
      exact hj r.reqId ((hslot j _).mpr (.inl ⟨rfl, rfl⟩))
    rw [ha.row j hne]
    exact h.free j fun x hx => hj x ((hslot j x).mpr (.inr ⟨hne, hx⟩))
  case users =>
    intro l x
    obtain ⟨hg, hb⟩ := h.free i hfree
    have hlora := (ha.holds hg hb).loraId
    rw [ha.users, h.users]
    constructor
    · rintro (⟨hl, j, hj, hlj⟩ | ⟨rfl, rfl, hl⟩)
      · have hne : j ≠ i := by
          rintro rfl
          exact hfree x hj
        refine ⟨hl, j, (hslot j x).mpr (.inr ⟨hne, hj⟩), ?_⟩
        rw [ha.row j hne]
        exact hlj
      · exact ⟨hl, i, (hslot i _).mpr (.inl ⟨rfl, rfl⟩), hlora⟩
    · rintro ⟨hl, j, hj, hlj⟩
      rcases (hslot j x).mp hj with ⟨rfl, rfl⟩ | ⟨hne, hj⟩
      · exact .inr ⟨rfl, hlj.symm.trans hlora, hl⟩
      · rw [ha.row j hne] at hlj
        exact .inl ⟨hl, j, hj, hlj⟩
  case idle => exact ha.idle h.idle
  case lists => exact ha.lists h.lists

theorem slot_of_moved {last empty : Nat} (hm : b.Moved c last empty id b')
    (hlast : b.reqIds[last]? = some (some id)) (hempty : b.reqIds[empty]? = some none) (j : Nat) (x : ReqId) :
    b'.reqIds[j]? = some (some x) ↔
      (j = empty ∧ x = id) ∨ (j ≠ empty ∧ j ≠ last ∧ b.reqIds[j]? = some (some x)) := by
  have hne : last ≠ empty := by
    rintro rfl
    rw [hlast] at hempty
    cases hempty
  have hlt := (List.getElem?_eq_some_iff.mp hlast).1
  have hlt' := (List.getElem?_eq_some_iff.mp hempty).1
  rw [hm.reqIds, List.getElem?_set, List.getElem?_set, List.length_set]
  by_cases hl : last = j
  · subst hl
    simp [hlt, hne]
  · by_cases he : empty = j
    · subst he
      simp [hl, hlt', eq_comm]
    · have hl' : ¬ j = last := fun h => hl h.symm
      have he' : ¬ j = empty := fun h => he h.symm
      simp [hl, he, hl', he']

theorem moved {last empty : Nat} (h : Core c requests b) (hlast : b.reqIds[last]? = some (some id))
    (hempty : b.reqIds[empty]? = some none) (hm : b.Moved c last empty id b') :
    Core c requests b' := by
  have hslot := slot_of_moved hm hlast hempty
  have hloraId : (b'.row empty).loraId = (b.row last).loraId := hm.loraId
  have hfree := h.free empty (fun x hx => by rw [hempty] at hx; cases hx)
  constructor
  case index =>
    intro x j
    rw [hm.index, Dict.get?_set, hslot]
    by_cases hx : id = x
    · subst hx
      simp only [if_true, Option.some.injEq]
      constructor
      · rintro rfl
        exact .inl ⟨rfl, trivial⟩
      · rintro (⟨rfl, -⟩ | ⟨-, hj, hjx⟩)
        · rfl
        · exact absurd (h.injective hjx hlast) hj
    · rw [if_neg hx, h.index]
      constructor
      · intro hj
        refine .inr ⟨?_, ?_, hj⟩
        · rintro rfl
          rw [hempty] at hj
          cases hj
        · rintro rfl
          rw [hlast] at hj
          exact hx (Option.some.inj (Option.some.inj hj))
      · rintro (⟨-, rfl⟩ | ⟨-, -, hj⟩)
        · exact absurd rfl hx
        · exact hj
  case rows =>
    intro j x hj
    rcases (hslot j x).mp hj with ⟨rfl, rfl⟩ | ⟨he, hl, hj⟩
    · obtain ⟨r, hr, hrow⟩ := h.rows last x hlast
      exact ⟨r, hr, hm.holds r hfree.1 hfree.2 hrow⟩
    · rw [hm.row j hl he]
      exact h.rows j x hj
  case free =>
    intro j hj
    by_cases hl : j = last
    · subst hl
      exact ⟨hm.generator, hm.badWords⟩
    · have he : j ≠ empty := by
        rintro rfl
        exact hj id ((hslot j _).mpr (.inl ⟨rfl, rfl⟩))
      rw [hm.row j hl he]
      exact h.free j fun x hx => hj x ((hslot j x).mpr (.inr ⟨he, hl, hx⟩))
  case users =>
    intro l x
    have husers : b'.loraUsers l = b.loraUsers l := by rw [loraUsers, hm.users, ← loraUsers]
    rw [husers, h.users]
    constructor
    · rintro ⟨hl, j, hj, hlj⟩
      by_cases hjl : j = last
      · subst hjl
        rw [hlast] at hj
        cases hj
        exact ⟨hl, empty, (hslot _ _).mpr (.inl ⟨rfl, rfl⟩), hloraId.trans hlj⟩
      · have he : j ≠ empty := by
          rintro rfl
          rw [hempty] at hj
          cases hj
        refine ⟨hl, j, (hslot j x).mpr (.inr ⟨he, hjl, hj⟩), ?_⟩
        rw [hm.row j hjl he]
        exact hlj
    · rintro ⟨hl, j, hj, hlj⟩
      rcases (hslot j x).mp hj with ⟨rfl, rfl⟩ | ⟨he, hjl, hj⟩
      · exact ⟨hl, last, hlast, hloraId.symm.trans hlj⟩
      · rw [hm.row j hjl he] at hlj
        exact ⟨hl, j, hj, hlj⟩
  case idle =>
    unfold NoIdleLora
    rw [hm.users]
    exact h.idle
  case lists => exact hm.lists h.lists

theorem swapped {i1 i2 : Nat} {id1 id2 : ReqId} (h : Core c requests b)
    (h1 : b.reqIds[i1]? = some (some id1)) (h2 : b.reqIds[i2]? = some (some id2))
    (hs : b.Swapped i1 i2 id1 id2 b') : Core c requests b' := by
  constructor
  case index =>
    intro x j
    rw [hs.slots, ← h.index, hs.index, Dict.get?_set, Dict.get?_set]
    by_cases hx2 : id2 = x
    · subst hx2
      rw [if_pos rfl, (h.index _ _).mpr h2]
      simp only [Option.some.injEq]
      rw [eq_comm, eq_comm (a := i2), Equiv.swap_apply_eq_iff, Equiv.swap_apply_right]
    · rw [if_neg hx2]
      by_cases hx1 : id1 = x
      · subst hx1
        rw [if_pos rfl, (h.index _ _).mpr h1]
        simp only [Option.some.injEq]
        rw [eq_comm, eq_comm (a := i1), Equiv.swap_apply_eq_iff, Equiv.swap_apply_left]
      · rw [if_neg hx1]
        have hfix : ∀ k, b.reqIdToIndex.get? x = some k → Equiv.swap i1 i2 k = k := by
          intro k hk
          have hk := (h.index x k).mp hk
          refine Equiv.swap_apply_of_ne_of_ne ?_ ?_
          · rintro rfl
            rw [h1] at hk
            exact hx1 (Option.some.inj (Option.some.inj hk))
          · rintro rfl
            rw [h2] at hk
            exact hx2 (Option.some.inj (Option.some.inj hk))
        constructor
        · intro hj
          rw [hfix j hj]
          exact hj
        · intro hj
          have := hfix _ hj
          rw [Equiv.swap_apply_self] at this
          rw [this]
          exact hj
  case rows =>
    intro j x hj
    rw [hs.slots] at hj
    rw [hs.row]
    exact h.rows _ x hj
  case free =>
    intro j hj
    rw [hs.row]
    refine h.free _ fun x hx => hj x ?_
    rw [hs.slots]
    exact hx
  case users =>
    intro l x
    have husers : b'.loraUsers l = b.loraUsers l := by rw [loraUsers, hs.users, ← loraUsers]
    rw [husers, h.users]
    constructor
    · rintro ⟨hl, j, hj, hlj⟩
      refine ⟨hl, Equiv.swap i1 i2 j, ?_, ?_⟩
      · rw [hs.slots, Equiv.swap_apply_self]
        exact hj
      · rw [hs.row, Equiv.swap_apply_self]
        exact hlj
    · rintro ⟨hl, j, hj, hlj⟩
      rw [hs.slots] at hj
      rw [hs.row] at hlj
      exact ⟨hl, _, hj, hlj⟩
  case idle =>
    unfold NoIdleLora
    rw [hs.users]
    exact h.idle
  case lists => exact hs.lists h.lists

theorem updated {r r' : CachedRequestState F G E} (h : Core c requests b)
    (hi : b.reqIds[i]? = some (some id)) (hr : requests.get? id = some r)
    (hu : b.Updated c i r r' b') : Core c (requests.set id r') b' := by
  have hrow : (b.row i).Holds c r := by
    obtain ⟨r₀, hr₀, hrow⟩ := h.rows i id hi
    rw [hr] at hr₀
    cases hr₀
    exact hrow
  have hloraId : ∀ j, (b'.row j).loraId = (b.row j).loraId := by
    intro j
    by_cases hj : j = i
    · subst hj
      exact hu.loraId
    · rw [hu.row j hj]
  constructor
  case index =>
    rw [hu.index, hu.reqIds]
    exact h.index
  case rows =>
    intro j x hj
    rw [hu.reqIds] at hj
    by_cases hji : j = i
    · subst hji
      rw [hi] at hj
      cases hj
      exact ⟨r', by simp, hu.holds hrow⟩
    · have hx : ¬ id = x := by
        rintro rfl
        exact hji (h.injective hj hi)
      rw [hu.row j hji, Dict.get?_set, if_neg hx]
      exact h.rows j x hj
  case free =>
    intro j hj
    rw [hu.reqIds] at hj
    have hji : j ≠ i := by
      rintro rfl
      exact hj id hi
    rw [hu.row j hji]
    exact h.free j hj
  case users =>
    intro l x
    have husers : b'.loraUsers l = b.loraUsers l := by rw [loraUsers, hu.users, ← loraUsers]
    simp only [husers, h.users, hu.reqIds, hloraId]
  case idle =>
    unfold NoIdleLora
    rw [hu.users]
    exact h.idle
  case lists => exact hu.lists h.lists

theorem withBuilder (h : Core c requests b) (u : BatchUpdateBuilder F) :
    Core c requests (b.withBuilder u) :=
  ⟨h.index, h.rows, h.free, h.users, h.idle, h.lists.outputs, h.lists.specs⟩

end Core

structure Holes (b : InputBatch F F32 G E) : Prop where
  nodup : b.batchUpdateBuilder.removed.Nodup
  mem : ∀ i, i ∈ b.batchUpdateBuilder.removed ↔ b.reqIds[i]? = some none
  size : b.reqIds.length = b.numReqs + b.batchUpdateBuilder.removed.length
  sorted : b.batchUpdateBuilder.Sorted

namespace Holes

variable {b b' : InputBatch F F32 G E} {i : Nat} {id : ReqId}

theorem removed (h : Holes b) (hi : b.reqIds[i]? = some (some id))
    (hx : b.reqIdToIndex.get? id = some i) (hs : b.batchUpdateBuilder.isRemovedSorted = false)
    (hr : b.Removed i id b') : Holes b' := by
  have hnot : i ∉ b.batchUpdateBuilder.removed := by
    rw [h.mem, hi]
    simp
  have hlt := (List.getElem?_eq_some_iff.mp hi).1
  constructor
  case nodup =>
    rw [hr.builder]
    refine List.nodup_append.mpr ⟨h.nodup, List.nodup_singleton i, ?_⟩
    rintro x hx y hy rfl
    rw [List.mem_singleton.mp hy] at hx
    exact hnot hx
  case mem =>
    intro j
    rw [hr.builder, hr.reqIds, List.getElem?_set]
    by_cases hj : i = j
    · subst hj
      simp [hlt]
    · have hj' : ¬ j = i := fun h => hj h.symm
      simp [hj, hj', h.mem j]
  case size =>
    have hsize := h.size
    have herase := Dict.size_erase b.reqIdToIndex id
    rw [hx] at herase
    rw [hr.reqIds, List.length_set, numReqs, hr.index, hr.builder]
    simp only [List.length_append, List.length_singleton, Option.map_some, Option.getD_some]
      at herase ⊢
    unfold numReqs at hsize
    omega
  case sorted =>
    intro hsorted
    rw [hr.builder] at hsorted
    rw [hs] at hsorted
    cases hsorted

theorem updated [Zero F] {c : InputBatchConfig F F32} {r r' : CachedRequestState F G E}
    (h : Holes b) (hu : b.Updated c i r r' b') : Holes b' := by
  constructor
  case nodup =>
    rw [hu.builder]
    exact h.nodup
  case mem =>
    rw [hu.builder, hu.reqIds]
    exact h.mem
  case size =>
    rw [numReqs, hu.index, hu.builder, hu.reqIds]
    exact h.size
  case sorted =>
    rw [hu.builder]
    exact h.sorted

theorem nextIndex (h : Holes b) : ∃ removed sorted,
    (b.batchUpdateBuilder.popRemoved.2 =
      { b.batchUpdateBuilder with removed, isRemovedSorted := sorted }) ∧
    b.batchUpdateBuilder.popRemoved.1.getD b.numReqs ≤ b.reqIds.length ∧
    (∀ x, b.reqIds[b.batchUpdateBuilder.popRemoved.1.getD b.numReqs]? ≠ some (some x)) ∧
    (∀ j, j ∈ removed ↔ j ∈ b.batchUpdateBuilder.removed ∧
      j ≠ b.batchUpdateBuilder.popRemoved.1.getD b.numReqs) ∧
    removed.Nodup ∧ (sorted = true → removed.Pairwise (· ≥ ·)) ∧
    max b.reqIds.length (b.batchUpdateBuilder.popRemoved.1.getD b.numReqs + 1) =
      b.numReqs + 1 + removed.length := by
  by_cases hnil : b.batchUpdateBuilder.removed = []
  · have hsize := h.size
    rw [hnil, List.length_nil] at hsize
    refine ⟨b.batchUpdateBuilder.removed, b.batchUpdateBuilder.isRemovedSorted, ?_⟩
    rw [BatchUpdateBuilder.popRemoved_of_nil hnil]
    simp only [Option.getD_none]
    refine ⟨trivial, by omega, fun x hx => ?_, fun j => ?_, h.nodup, h.sorted, ?_⟩
    · have := (List.getElem?_eq_some_iff.mp hx).1
      omega
    · simp [hnil]
    · rw [hnil, List.length_nil]
      omega
  · obtain ⟨rest, e, hpop, -, hperm, hsorted⟩ := BatchUpdateBuilder.popRemoved_spec h.sorted hnil
    have hmem : e ∈ b.batchUpdateBuilder.removed := hperm.mem_iff.mp (by simp)
    have hnodup : (rest ++ [e]).Nodup := hperm.nodup_iff.mpr h.nodup
    have hslot := (h.mem e).mp hmem
    have hlt := (List.getElem?_eq_some_iff.mp hslot).1
    have hlen := hperm.length_eq
    have hsize := h.size
    refine ⟨rest, true, ?_⟩
    rw [hpop]
    simp only [Option.getD_some]
    refine ⟨trivial, by omega, fun x hx => ?_, fun j => ?_, ?_, fun _ => ?_, ?_⟩
    · rw [hslot] at hx
      cases hx
    · rw [← hperm.mem_iff, List.mem_append, List.mem_singleton]
      have hnot : e ∉ rest := fun he =>
        (List.nodup_append.mp hnodup).2.2 e he e (List.mem_singleton_self e) rfl
      constructor
      · intro hj
        refine ⟨.inl hj, ?_⟩
        rintro rfl
        exact hnot hj
      · rintro ⟨hj | hj, hne⟩
        · exact hj
        · exact absurd hj hne
    · exact (List.nodup_append.mp hnodup).1
    · exact (List.pairwise_append.mp hsorted).1
    · simp only [List.length_append, List.length_singleton] at hlen
      omega

theorem nextIndex_lt (h : Holes b) :
    b.batchUpdateBuilder.popRemoved.1.getD b.numReqs < b.reqIds.length ∨
      b.batchUpdateBuilder.popRemoved.1.getD b.numReqs = b.numReqs := by
  by_cases hnil : b.batchUpdateBuilder.removed = []
  · rw [BatchUpdateBuilder.popRemoved_of_nil hnil]
    exact .inr rfl
  · obtain ⟨rest, e, hpop, -, hperm, -⟩ := BatchUpdateBuilder.popRemoved_spec h.sorted hnil
    have hmem : e ∈ b.batchUpdateBuilder.removed := hperm.mem_iff.mp (by simp)
    rw [hpop]
    exact .inl (List.getElem?_eq_some_iff.mp ((h.mem e).mp hmem)).1

theorem added [Zero F] {c : InputBatchConfig F F32} {r : CachedRequestState F G E} (h : Holes b)
    (hi : b.batchUpdateBuilder.popRemoved.1.getD b.numReqs = i)
    (hnew : b.reqIdToIndex.get? r.reqId = none) (ha : b.Added c i r b') : Holes b' := by
  obtain ⟨removed, sorted, hpop, hle, -, hmem, hnodup, hsorted, hlen⟩ := h.nextIndex
  rw [hi] at hle hmem hlen
  obtain ⟨params, -, hbuilder⟩ := ha.builder
  rw [hpop] at hbuilder
  have hlength : b'.reqIds.length = max b.reqIds.length (i + 1) := by
    have hget : ∀ j, j < b'.reqIds.length ↔ j = i ∨ j < b.reqIds.length := by
      intro j
      rw [← not_le, ← List.getElem?_eq_none_iff, ha.slots]
      by_cases hj : j = i <;> simp [hj]
    have h₁ := hget b'.reqIds.length
    have h₂ := hget (b'.reqIds.length - 1)
    have h₃ := hget i
    have h₄ := hget (b.reqIds.length - 1)
    omega
  constructor
  case nodup =>
    rw [hbuilder]
    exact hnodup
  case mem =>
    intro j
    rw [hbuilder, ha.slots]
    show j ∈ removed ↔ _
    rw [hmem]
    by_cases hj : j = i
    · simp [hj]
    · simp [hj, h.mem j]
  case size =>
    have hset := Dict.size_set b.reqIdToIndex r.reqId i
    have hnum : b'.numReqs = (b.reqIdToIndex.set r.reqId i).size := by rw [numReqs, ha.index]
    rw [hnew] at hset
    rw [hlength, hlen, hnum, hbuilder]
    simp only [Option.map_none, Option.getD_none] at hset ⊢
    unfold numReqs
    omega
  case sorted =>
    rw [hbuilder]
    exact hsorted

end Holes

structure Follower (F V : Type) where
  zero : V
  value : BatchReplay.Value F V
  start : Nat → V

namespace Follower

open BatchReplay

variable (w : Follower F V)

def after (u : BatchUpdateBuilder F) : Nat → V :=
  replay w.zero w.value w.start u.added u.removed u.moved

def requestValue (r : CachedRequestState F G E) : V :=
  match r.samplingParams with
  | some params => w.value params r.promptTokenIds r.outputTokenIds
  | none => w.zero

def slotValue (requests : Dict ReqId (CachedRequestState F G E)) (b : InputBatch F F32 G E)
    (i : Nat) : V :=
  match b.reqIds[i]? with
  | some (some id) => ((requests.get? id).map w.requestValue).getD w.zero
  | _ => w.zero

def Logged (requests : Dict ReqId (CachedRequestState F G E)) (b : InputBatch F F32 G E) : Prop :=
  w.after b.batchUpdateBuilder = w.slotValue requests b

variable {w} {b b' : InputBatch F F32 G E} {requests : Dict ReqId (CachedRequestState F G E)}
variable {i : Nat} {id : ReqId}

theorem slotValue_some (h : b.reqIds[i]? = some (some id)) :
    w.slotValue requests b i = ((requests.get? id).map w.requestValue).getD w.zero := by
  simp only [slotValue, h]

theorem slotValue_empty (h : ∀ x, b.reqIds[i]? ≠ some (some x)) :
    w.slotValue requests b i = w.zero := by
  unfold slotValue
  split
  · rename_i x hx
    exact absurd hx (h x)
  · rfl

theorem slotValue_congr {j : Nat} (h : b'.reqIds[j]? = b.reqIds[i]?) :
    w.slotValue requests b' j = w.slotValue requests b i := by
  simp only [slotValue, h]

theorem Logged.removed (h : w.Logged requests b) (hi : b.reqIds[i]? = some (some id))
    (hm : b.batchUpdateBuilder.moved = []) (hr : b.Removed i id b') : w.Logged requests b' := by
  have hlt := (List.getElem?_eq_some_iff.mp hi).1
  funext j
  have hj := congrFun h j
  simp only [after, hr.builder, hm, replay, BatchReplay.moved, List.foldl_nil, removed_apply,
    List.mem_append, List.mem_singleton] at hj ⊢
  by_cases hji : j = i
  · subst hji
    rw [if_pos (.inr rfl), slotValue_empty]
    intro x hx
    rw [hr.reqIds, List.getElem?_set, if_pos rfl, if_pos hlt] at hx
    cases hx
  · have hslot : b'.reqIds[j]? = b.reqIds[j]? := by
      rw [hr.reqIds, List.getElem?_set, if_neg (Ne.symm hji)]
    rw [slotValue_congr hslot, ← hj]
    simp [hji]

theorem Logged.updated [Zero F] {c : InputBatchConfig F F32} {r r' : CachedRequestState F G E}
    (h : w.Logged requests b) (hr : requests.get? id = some r)
    (hval : w.requestValue r' = w.requestValue r) (hu : b.Updated c i r r' b') :
    w.Logged (requests.set id r') b' := by
  have hafter : w.after b'.batchUpdateBuilder = w.after b.batchUpdateBuilder := by rw [hu.builder]
  unfold Logged
  rw [hafter, show w.after b.batchUpdateBuilder = w.slotValue requests b from h]
  funext j
  unfold slotValue
  rw [hu.reqIds]
  split
  · rename_i x _
    rw [Dict.get?_set]
    by_cases hx : id = x
    · subst hx
      rw [if_pos rfl, hr, Option.map_some, Option.map_some, hval]
    · rw [if_neg hx]
  · rfl

theorem Logged.added [Zero F] {c : InputBatchConfig F F32} {r : CachedRequestState F G E}
    (h : w.Logged requests b) (hcore : Core c requests b) (hholes : Holes b)
    (hm : b.batchUpdateBuilder.moved = [])
    (hi : b.batchUpdateBuilder.popRemoved.1.getD b.numReqs = i)
    (hnew : b.reqIdToIndex.get? r.reqId = none) (ha : b.Added c i r b') :
    w.Logged (requests.set r.reqId r) b' := by
  obtain ⟨removed, sorted, hpop, -, -, hmem, -⟩ := hholes.nextIndex
  obtain ⟨params, hp, hbuilder⟩ := ha.builder
  rw [hi] at hmem
  rw [hpop] at hbuilder
  funext j
  have hj := congrFun h j
  simp only [after, hbuilder, hm, replay, BatchReplay.moved, List.foldl_nil, removed_apply,
    added_concat] at hj ⊢
  by_cases hji : j = i
  · subst hji
    have hslot : b'.reqIds[j]? = some (some r.reqId) := by
      rw [ha.slots, if_pos rfl]
    rw [slotValue_some hslot, Function.update_self, if_neg (fun hmem' => ((hmem j).mp hmem').2 rfl)]
    simp [requestValue, hp]
  · rw [Function.update_of_ne hji]
    have hslot : b'.reqIds[j]? = b.reqIds[j]? := by rw [ha.slots, if_neg hji]
    have hvalue : w.slotValue (requests.set r.reqId r) b' j = w.slotValue requests b j := by
      unfold slotValue
      rw [hslot]
      split
      · rename_i x hx
        have hne : ¬ r.reqId = x := by
          rintro rfl
          rw [(hcore.index _ _).mpr hx] at hnew
          cases hnew
        rw [Dict.get?_set, if_neg hne]
      · rfl
    rw [hvalue, ← hj]
    have hiff : j ∈ removed ↔ j ∈ b.batchUpdateBuilder.removed := by
      rw [hmem]
      exact ⟨fun h => h.1, fun h => ⟨h, hji⟩⟩
    simp only [hiff]

end Follower

end Vllm.Worker
