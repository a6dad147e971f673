import Vllm.OffloadingManager
import Vllm.Lib.Run

namespace Vllm

variable {κ : Type} [DecidableEq κ]

def owners (live : List (κ × BlockStatus)) : List (κ × Nat) :=
  live.map fun e => (e.1, e.2.blockId)

structure CPUBackend.Owned (b : CPUBackend) (owners : List (κ × Nat)) : Prop where
  keys : (owners.map Prod.fst).Nodup
  ids : (owners.map Prod.snd ++ b.allocatedBlocksFreeList).Perm (List.range b.numAllocatedBlocks)

section CPUBackend.Owned

variable {b : CPUBackend} {own own' : List (κ × Nat)}

omit [DecidableEq κ]

theorem CPUBackend.Owned.perm (h : CPUBackend.Owned b own) (hperm : own.Perm own') : CPUBackend.Owned b own' where
  keys := (hperm.map Prod.fst).nodup_iff.mp h.keys
  ids := ((hperm.symm.map Prod.snd).append_right _).trans h.ids

theorem CPUBackend.Owned.free {k : κ} {block : BlockStatus} (h : CPUBackend.Owned b ((k, block.blockId) :: own)) :
    CPUBackend.Owned (b.free block) own where
  keys := (List.nodup_cons.mp h.keys).2
  ids := by
    refine List.Perm.trans ?_ h.ids
    rw [CPUBackend.free, ← List.append_assoc]
    exact List.perm_append_singleton _ _

theorem CPUBackend.Owned.nodup (h : CPUBackend.Owned b own) :
    (own.map Prod.snd ++ b.allocatedBlocksFreeList).Nodup :=
  h.ids.nodup_iff.mpr List.nodup_range

theorem CPUBackend.Owned.count (h : CPUBackend.Owned b own) : own.length + b.getNumFreeBlocks = b.numBlocks := by
  have hlength := h.ids.length_eq
  rw [List.length_append, List.length_map, List.length_range] at hlength
  have hle := b.allocated_le
  rw [CPUBackend.getNumFreeBlocks]
  omega

def newIds (b : CPUBackend) (n : Nat) : List Nat :=
  List.range' b.numAllocatedBlocks (min n (b.numBlocks - b.numAllocatedBlocks)) ++
    (b.allocatedBlocksFreeList.drop (b.allocatedBlocksFreeList.length -
      (n - min n (b.numBlocks - b.numAllocatedBlocks)))).reverse

theorem length_newIds {n : Nat} (hn : n ≤ b.getNumFreeBlocks) : (newIds b n).length = n := by
  rw [CPUBackend.getNumFreeBlocks] at hn
  rw [newIds, List.length_append, List.length_range', List.length_reverse, List.length_drop]
  omega

theorem CPUBackend.Owned.allocateBlocks (h : CPUBackend.Owned b own) {hashes : List κ}
    (hnew : (own.map Prod.fst ++ hashes).Nodup) (hn : hashes.length ≤ b.getNumFreeBlocks) :
    ∃ b', b.allocateBlocks hashes.length =
        .ok ((newIds b hashes.length).map BlockStatus.new, b') ∧
      b'.numBlocks = b.numBlocks ∧ CPUBackend.Owned b' (own ++ hashes.zip (newIds b hashes.length)) := by
  have hlength := length_newIds hn
  obtain ⟨n, hn'⟩ : ∃ n, n = hashes.length := ⟨_, rfl⟩
  rw [← hn'] at hn hlength ⊢
  have hfree : n - min n (b.numBlocks - b.numAllocatedBlocks) ≤
      b.allocatedBlocksFreeList.length := by
    rw [CPUBackend.getNumFreeBlocks] at hn
    omega
  have hzip : (hashes.zip (newIds b n)).map Prod.fst = hashes :=
    List.map_fst_zip (by omega)
  have hzip' : (hashes.zip (newIds b n)).map Prod.snd = newIds b n :=
    List.map_snd_zip (by omega)
  refine ⟨{ b with
      numAllocatedBlocks := b.numAllocatedBlocks + min n (b.numBlocks - b.numAllocatedBlocks)
      allocatedBlocksFreeList := b.allocatedBlocksFreeList.take (b.allocatedBlocksFreeList.length -
        (n - min n (b.numBlocks - b.numAllocatedBlocks)))
      allocated_le := by have := b.allocated_le; omega }, ?_, rfl, ⟨?_, ?_⟩⟩
  · simp only [CPUBackend.allocateBlocks, Result.ensure, ge_iff_le, if_pos hfree]
    rfl
  · rw [List.map_append, hzip]
    exact hnew
  · rw [List.map_append, hzip', newIds]
    simp only
    obtain ⟨f, hf⟩ : ∃ f, f = min n (b.numBlocks - b.numAllocatedBlocks) := ⟨_, rfl⟩
    obtain ⟨k, hk⟩ : ∃ k, k = b.allocatedBlocksFreeList.length - (n - f) := ⟨_, rfl⟩
    rw [← hf, ← hk]
    have hrange : List.range (b.numAllocatedBlocks + f) =
        List.range b.numAllocatedBlocks ++ List.range' b.numAllocatedBlocks f := by
      have hsplit := List.range'_append_1 (s := 0) (m := b.numAllocatedBlocks) (n := f)
      rw [List.range_eq_range', List.range_eq_range', ← hsplit, Nat.zero_add]
    have hfresh : List.Perm ((List.range' b.numAllocatedBlocks f ++
        (b.allocatedBlocksFreeList.drop k).reverse) ++ b.allocatedBlocksFreeList.take k)
        (b.allocatedBlocksFreeList ++ List.range' b.numAllocatedBlocks f) := by
      refine List.perm_append_comm.trans ((List.perm_append_comm.append_left _).trans ?_)
      refine (((List.reverse_perm _).append_right _).append_left _).trans ?_
      rw [← List.append_assoc, List.take_append_drop]
    rw [hrange, List.append_assoc]
    refine (hfresh.append_left _).trans ?_
    rw [← List.append_assoc]
    exact h.ids.append_right _

end CPUBackend.Owned

structure Conserved (numBlocks : Nat) (b : CPUBackend) (live : List (κ × BlockStatus)) : Prop where
  keys : (live.map Prod.fst).Nodup
  ids : (live.map fun e => e.2.blockId).Nodup
  notFree : ∀ e ∈ live, e.2.blockId ∉ b.allocatedBlocksFreeList
  allocated : ∀ e ∈ live, e.2.blockId < b.numAllocatedBlocks
  count : live.length + b.getNumFreeBlocks = numBlocks

/-- A block that is stored or loaded right now keeps its place and its id, also where `prepare_store`
gives up after some evictions. -/
structure Kept (live live' : List (κ × BlockStatus)) (out : Option (PrepareStoreOutput κ)) : Prop where
  evicted : ∀ o ∈ out, ∀ h ∈ o.blockHashesEvicted, ∃ b, (h, b) ∈ live ∧ b.refCnt = 0
  busy : ∀ e ∈ live, e.2.refCnt ≠ 0 → e ∈ live'
  apart : ∀ o ∈ out, ∀ e ∈ live, e.2.refCnt ≠ 0 →
    e.1 ∉ o.blockHashesEvicted ∧ e.2.blockId ∉ o.storeSpec

omit [DecidableEq κ] in
theorem ready_of_counted {get? : κ → Option BlockStatus} {hashes : List κ} {k : κ}
    (hk : k ∈ hashes.take (hashes.takeWhile fun h => (get? h).any BlockStatus.isReady).length) :
    ∃ block, get? k = some block ∧ block.isReady = true := by
  rw [← List.prefix_iff_eq_take.1 (List.takeWhile_prefix _)] at hk
  have hready := List.all_eq_true.1 List.all_takeWhile k hk
  cases hget : get? k with
  | none =>
    rw [hget] at hready
    cases hready
  | some block =>
    rw [hget] at hready
    exact ⟨block, rfl, hready⟩

section Conserved

variable {b b' : CPUBackend} {live live' rest gone : List (κ × BlockStatus)}

omit [DecidableEq κ]

theorem map_fst_owners : (owners live).map Prod.fst = live.map Prod.fst := by
  rw [owners, List.map_map]
  rfl

theorem map_snd_owners : (owners live).map Prod.snd = live.map fun e => e.2.blockId := by
  rw [owners, List.map_map]
  rfl

theorem CPUBackend.Owned.conserved (h : CPUBackend.Owned b (owners live)) : Conserved b.numBlocks b live where
  keys := map_fst_owners ▸ h.keys
  ids := map_snd_owners ▸ (List.nodup_append.mp h.nodup).1
  notFree := by
    intro e he hfree
    have hmem : e.2.blockId ∈ (owners live).map Prod.snd := by
      rw [map_snd_owners]
      exact List.mem_map_of_mem he
    exact (List.nodup_append.mp h.nodup).2.2 _ hmem _ hfree rfl
  allocated := by
    intro e he
    have hmem : e.2.blockId ∈ (owners live).map Prod.snd := by
      rw [map_snd_owners]
      exact List.mem_map_of_mem he
    exact List.mem_range.mp (h.ids.mem_iff.mp (List.mem_append_left _ hmem))
  count := by
    have hcount := h.count
    rw [owners, List.length_map] at hcount
    exact hcount

theorem owners_append : owners (live ++ live') = owners live ++ owners live' := List.map_append

theorem owners_new (hashes : List κ) (ids : List Nat) :
    owners (hashes.zip (ids.map BlockStatus.new)) = hashes.zip ids := by
  induction hashes generalizing ids with
  | nil => rfl
  | cons h hashes ih =>
    cases ids with
    | nil => rfl
    | cons i ids => exact congrArg ((h, i) :: ·) (ih ids)

omit [DecidableEq κ] in
theorem mem_of_unused {e : κ × BlockStatus} (hsplit : live.Perm (gone ++ rest))
    (hunused : ∀ e ∈ gone, e.2.refCnt = 0) (he : e ∈ live) (hbusy : e.2.refCnt ≠ 0) : e ∈ rest := by
  rcases List.mem_append.mp (hsplit.mem_iff.mp he) with hgone | hrest
  · exact absurd (hunused e hgone) hbusy
  · exact hrest

theorem kept_of_perm {hashes : List κ} {ids : List Nat} (h : CPUBackend.Owned b (owners live))
    (hsplit : live.Perm (gone ++ rest)) (hunused : ∀ e ∈ gone, e.2.refCnt = 0)
    (hlive' : live'.Perm (rest ++ hashes.zip (ids.map BlockStatus.new)))
    (hlength : ids.length ≤ hashes.length) (h' : CPUBackend.Owned b' (owners live')) :
    Kept live live' (some ⟨hashes, ids, gone.map Prod.fst⟩) where
  evicted := by
    rintro _ ⟨⟩ k hk
    obtain ⟨e, he, rfl⟩ := List.mem_map.mp hk
    exact ⟨e.2, hsplit.mem_iff.mpr (List.mem_append_left _ he), hunused e he⟩
  busy := fun e he hbusy =>
    hlive'.mem_iff.mpr (List.mem_append_left _ (mem_of_unused hsplit hunused he hbusy))
  apart := by
    rintro _ ⟨⟩ e he hbusy
    have hrest := mem_of_unused hsplit hunused he hbusy
    refine ⟨fun hmem => ?_, fun hmem => ?_⟩
    · obtain ⟨e', he', heq⟩ := List.mem_map.mp hmem
      have hkeys : ((gone ++ rest).map Prod.fst).Nodup :=
        (hsplit.map Prod.fst).nodup_iff.mp (map_fst_owners ▸ h.keys)
      rw [List.map_append, List.nodup_append] at hkeys
      exact hkeys.2.2 e'.1 (List.mem_map_of_mem he') e.1 (List.mem_map_of_mem hrest) heq
    · have hids : ((owners (rest ++ hashes.zip (ids.map BlockStatus.new))).map Prod.snd).Nodup := by
        refine ((hlive'.map _).map Prod.snd).nodup_iff.mp ?_
        exact (List.nodup_append.mp h'.nodup).1
      rw [owners_append, owners_new, List.map_append, List.map_snd_zip hlength, map_snd_owners,
        List.nodup_append] at hids
      exact hids.2.2 _ (List.mem_map_of_mem (f := fun e => e.2.blockId) hrest) _ hmem rfl

end Conserved

section Dicts

variable {d : Dict κ BlockStatus} {k : κ} {v v' : BlockStatus}

theorem owners_set (h : d.get? k = some v) (hid : v'.blockId = v.blockId) :
    owners (d.set k v').items = owners d.items :=
  Dict.map_items_set h (by rw [hid])

end Dicts

end Vllm
