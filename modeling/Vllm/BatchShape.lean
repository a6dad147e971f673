import Vllm.InputBatchRun

namespace Vllm.Worker

namespace InputBatch

variable {F F32 G E : Type} {c : InputBatchConfig F F32} {b b' : InputBatch F F32 G E}
variable {i j n : Nat} {id : ReqId}

/-- Every id's index is the place that holds the id, and the lists go along with the ids. -/
structure Shaped (b : InputBatch F F32 G E) : Prop where
  index : ∀ id i, b.reqIdToIndex.get? id = some i ↔ b.reqIds[i]? = some (some id)
  lists : b.Lists

def Occupied (b : InputBatch F F32 G E) (i : Nat) : Prop := ∃ id, b.reqIds[i]? = some (some id)

instance (b : InputBatch F F32 G E) (i : Nat) : Decidable (b.Occupied i) :=
  match h : b.reqIds[i]? with
  | some (some id) => isTrue ⟨id, h⟩
  | some none => isFalse fun ⟨_, hid⟩ => nomatch h.symm.trans hid
  | none => isFalse fun ⟨_, hid⟩ => nomatch h.symm.trans hid

structure Gaps (b : InputBatch F F32 G E) : Prop where
  empty : ∀ i, b.reqIds[i]? = some none → i ∈ b.batchUpdateBuilder.removed
  free : ∀ i ∈ b.batchUpdateBuilder.removed, ¬ b.Occupied i
  nodup : b.batchUpdateBuilder.removed.Nodup
  sorted : b.batchUpdateBuilder.Sorted

namespace Shaped

theorem injective (h : b.Shaped) (hi : b.reqIds[i]? = some (some id))
    (hj : b.reqIds[j]? = some (some id)) : i = j := by
  have hi := (h.index id i).mpr hi
  rw [(h.index id j).mpr hj] at hi
  exact (Option.some.inj hi).symm

theorem numReqs_eq (h : b.Shaped) (hn : ∀ i, b.Occupied i ↔ i < n) : b.numReqs = n := by
  have hinj : ∀ p ∈ b.reqIdToIndex.items, ∀ q ∈ b.reqIdToIndex.items, p.2 = q.2 → p = q := by
    rintro ⟨x, i⟩ hp ⟨y, j⟩ hq heq
    have hx := (h.index x i).mp (Dict.get?_eq_some.mpr hp)
    have hy := (h.index y j).mp (Dict.get?_eq_some.mpr hq)
    change i = j at heq
    subst heq
    rw [hx] at hy
    cases hy
    rfl
  have hnodup : b.reqIdToIndex.values.Nodup :=
    List.Nodup.map_on hinj (List.Nodup.of_map Prod.fst b.reqIdToIndex.nodup)
  have hperm : b.reqIdToIndex.values.Perm (List.range n) := by
    refine (List.perm_ext_iff_of_nodup hnodup List.nodup_range).mpr fun i => ?_
    rw [Dict.mem_values, List.mem_range, ← hn]
    exact exists_congr fun id => h.index id i
  rw [numReqs, Dict.size, ← List.length_map (f := Prod.snd), ← List.length_range (n := n)]
  exact hperm.length_eq

end Shaped

theorem init_shaped [Zero F] (c : InputBatchConfig F F32) (blockTable : MultiGroupBlockTable) :
    (init c blockTable : InputBatch F F32 G E).Shaped ∧
      (init c blockTable : InputBatch F F32 G E).Gaps :=
  ⟨⟨fun _ _ => by simp [init], rfl, Nat.zero_le _⟩,
    ⟨fun _ hi => by simp [init] at hi, nofun, List.nodup_nil, nofun⟩⟩

theorem occupied_or (b : InputBatch F F32 G E) (i : Nat) :
    b.Occupied i ∨ b.reqIds[i]? = some none ∨ b.reqIds.length ≤ i := by
  cases hi : b.reqIds[i]? with
  | none => exact .inr (.inr (List.getElem?_eq_none_iff.mp hi))
  | some x =>
    cases x with
    | none => exact .inr (.inl rfl)
    | some id => exact .inl ⟨id, hi⟩

theorem Occupied.lt (h : b.Occupied i) : i < b.reqIds.length := by
  obtain ⟨id, hid⟩ := h
  exact (List.getElem?_eq_some_iff.mp hid).1

section Remove

/-- What `remove_request` does to the ids and to the data that only some requests have. -/
structure Left (b : InputBatch F F32 G E) (i : Nat) (id : ReqId) (b' : InputBatch F F32 G E) :
    Prop where
  reqIds : b'.reqIds = b.reqIds.set i none
  outputs : b'.reqOutputTokenIds.length = b.reqOutputTokenIds.length
  specs : b'.specTokenIds.length = b.specTokenIds.length
  index : b'.reqIdToIndex = b.reqIdToIndex.erase id
  removed : b'.batchUpdateBuilder.removed = b.batchUpdateBuilder.removed ++ [i]
  unsorted : b'.batchUpdateBuilder.isRemovedSorted = false
  embeds : b'.reqPromptEmbeds = b.reqPromptEmbeds
  flags : b'.logitsProcessingNeedsTokenIds = b.logitsProcessingNeedsTokenIds

theorem dropLora_eq (h : b.dropLora i id = .ok b') :
    ∃ mapping ids loras, b' = b.withLora mapping ids loras := by
  unfold dropLora at h
  simp only at h
  split at h
  · cases h
    exact ⟨_, _, _, rfl⟩
  · split at h
    · cases h
    · split at h <;> cases h <;> exact ⟨_, _, _, rfl⟩

theorem removeRequest_left {x : Option Nat} (h : b.removeRequest c id = .ok (x, b')) :
    (b.reqIdToIndex.get? id = none ∧ b' = b) ∨
      ∃ i, b.reqIdToIndex.get? id = some i ∧ b.Left i id b' := by
  unfold removeRequest at h
  split at h
  · rename_i hnone
    cases h
    exact .inl ⟨hnone, rfl⟩
  · rename_i i hi
    refine .inr ⟨i, hi, ?_⟩
    rw [Result.bind_eq_ok] at h
    obtain ⟨u, hu, h⟩ := h
    rw [Result.bind_eq_ok] at h
    obtain ⟨b₁, hdrop, h⟩ := h
    obtain ⟨mapping, ids, loras, rfl⟩ := dropLora_eq hdrop
    unfold BatchUpdateBuilder.removedAppend at hu
    split at hu
    · cases hu
    · rename_i hsorted
      cases hu
      have hsorted := Bool.eq_false_iff.mpr hsorted
      split at h <;> cases h <;>
        exact ⟨rfl, List.length_set, List.length_set, rfl, rfl, hsorted, rfl, rfl⟩

theorem Left.slots (hl : b.Left i id b') (hi : b.reqIds[i]? = some (some id)) (j : Nat) :
    b'.reqIds[j]? = if j = i then some none else b.reqIds[j]? := by
  have hlt := (List.getElem?_eq_some_iff.mp hi).1
  rw [hl.reqIds, List.getElem?_set]
  by_cases hj : i = j
  · rw [if_pos hj, if_pos hlt, if_pos hj.symm]
  · rw [if_neg hj, if_neg (Ne.symm hj)]

theorem Shaped.left (h : b.Shaped) (hi : b.reqIdToIndex.get? id = some i) (hl : b.Left i id b') :
    b'.Shaped := by
  have hslot := (h.index id i).mp hi
  constructor
  case index =>
    intro x j
    rw [hl.index, Dict.get?_erase, hl.slots hslot]
    by_cases hx : id = x
    · subst hx
      rw [if_pos rfl]
      split
      · simp
      · rename_i hj
        exact iff_of_false (by simp) fun hjx => hj (h.injective hjx hslot)
    · rw [if_neg hx, h.index]
      split
      · rename_i hj
        subst hj
        rw [hslot]
        simp [hx]
      · rfl
  case lists =>
    have houtputs := h.lists.outputs
    have hspecs := h.lists.specs
    constructor
    · rw [hl.outputs, hl.reqIds, List.length_set, houtputs]
    · rw [hl.specs, hl.reqIds, List.length_set]
      exact hspecs

theorem Gaps.left (h : b.Gaps) (hi : b.reqIds[i]? = some (some id)) (hl : b.Left i id b') :
    b'.Gaps := by
  have hnot : i ∉ b.batchUpdateBuilder.removed := fun hmem => h.free i hmem ⟨id, hi⟩
  constructor
  case empty =>
    intro j hj
    rw [hl.slots hi] at hj
    rw [hl.removed, List.mem_append, List.mem_singleton]
    split at hj
    · exact .inr ‹_›
    · exact .inl (h.empty j hj)
  case free =>
    rintro j hj ⟨x, hx⟩
    rw [hl.slots hi] at hx
    rw [hl.removed, List.mem_append, List.mem_singleton] at hj
    split at hx
    · cases hx
    · rename_i hne
      exact h.free j (hj.resolve_right hne) ⟨x, hx⟩
  case nodup =>
    rw [hl.removed]
    refine List.nodup_append.mpr ⟨h.nodup, List.nodup_singleton i, ?_⟩
    rintro x hx y hy rfl
    rw [List.mem_singleton.mp hy] at hx
    exact hnot hx
  case sorted =>
    intro hs
    rw [hl.unsorted] at hs
    cases hs

end Remove

section Add

variable {r : CachedRequestState F G E}

structure Entered (b : InputBatch F F32 G E) (i : Nat) (r : CachedRequestState F G E)
    (b' : InputBatch F F32 G E) : Prop where
  slots : ∀ j, b'.reqIds[j]? = if j = i then some (some r.reqId) else b.reqIds[j]?
  lists : b.Lists → b'.Lists
  index : b'.reqIdToIndex = b.reqIdToIndex.set r.reqId i
  removed : b'.batchUpdateBuilder.removed = b.batchUpdateBuilder.popRemoved.2.removed
  sorted : b'.batchUpdateBuilder.isRemovedSorted =
    b.batchUpdateBuilder.popRemoved.2.isRemovedSorted
  embeds : b'.reqPromptEmbeds = setIfSome b.reqPromptEmbeds i r.promptEmbeds
  flags : b'.logitsProcessingNeedsTokenIds =
    match r.samplingParams, r.poolingParams with
    | none, some params =>
      Function.update b.logitsProcessingNeedsTokenIds i params.requiresTokenIds
    | _, _ => b.logitsProcessingNeedsTokenIds

variable [Zero F] [One F] [LT F] [DecidableLT F] [DecidableEq F]

omit [Zero F] [One F] [LT F] [DecidableLT F] [DecidableEq F] in
theorem le_length_of_placeRequest (h : b.placeRequest i r = .ok b') : i ≤ b.reqIds.length := by
  unfold placeRequest at h
  split at h
  · exact Nat.le_of_eq ‹_›
  · split at h
    · exact Nat.le_of_lt ‹_›
    · cases h

omit [Zero F] [One F] [LT F] [DecidableLT F] [DecidableEq F] in
theorem registerAddRequest_eq (h : b.registerAddRequest c r = .ok (i, b')) :
    i = b.batchUpdateBuilder.popRemoved.1.getD b.numReqs ∧
      ∃ added, b' = b.withBuilder { b.batchUpdateBuilder.popRemoved.2 with
        batchChanged := true, added } := by
  unfold registerAddRequest at h
  simp only [Result.bind_eq_ok, Result.pure_eq_ok] at h
  obtain ⟨-, -, h⟩ := h
  cases h
  exact ⟨rfl, _, rfl⟩

theorem addRequest_entered (h : b.addRequest c r = .ok (i, b')) :
    i = b.batchUpdateBuilder.popRemoved.1.getD b.numReqs ∧ i ≤ b.reqIds.length ∧
      b.Entered i r b' := by
  unfold addRequest at h
  rw [Result.bind_eq_ok] at h
  obtain ⟨⟨k, b₁⟩, hreg, h⟩ := h
  obtain ⟨hk, added, rfl⟩ := registerAddRequest_eq hreg
  simp only [Result.bind_eq_ok] at h
  obtain ⟨b₂, hplace, row, -, ts, -, h⟩ := h
  have hle := le_length_of_placeRequest hplace
  obtain ⟨ids, outputs, specs, hok, hslots, hlists⟩ := placeRequest_spec (r := r) hle
  have hlists : b.Lists → outputs.length = ids.length ∧ ids.length ≤ specs.length :=
    fun h => hlists ⟨h.outputs, h.specs⟩
  rw [hok] at hplace
  cases hplace
  split at h
  · rename_i params hsampling
    cases h
    obtain ⟨mapping, users, loras, hlora⟩ := storeLora_eq (i := i) (r := r)
      (b := ((storeTokens _ i r row).withTables ts).storeSampling c i r params)
    rw [hlora]
    refine ⟨hk, hle, hslots, fun h => ⟨(hlists h).1, (hlists h).2⟩, rfl, rfl, rfl, rfl, ?_⟩
    rw [hsampling]
    rfl
  · rename_i params hsampling hpooling
    cases h
    obtain ⟨mapping, users, loras, hlora⟩ := storeLora_eq (i := i) (r := r)
      (b := ((storeTokens _ i r row).withTables ts).storePooling i r params)
    rw [hlora]
    refine ⟨hk, hle, hslots, fun h => ⟨(hlists h).1, (hlists h).2⟩, rfl, rfl, rfl, rfl, ?_⟩
    rw [hsampling, hpooling]
    rfl
  · cases h

omit [Zero F] [One F] [LT F] [DecidableLT F] [DecidableEq F]

theorem Shaped.entered (h : b.Shaped) (hnew : b.reqIdToIndex.get? r.reqId = none)
    (hfree : ¬ b.Occupied i) (he : b.Entered i r b') : b'.Shaped := by
  constructor
  case index =>
    intro x j
    rw [he.index, Dict.get?_set, he.slots]
    by_cases hx : r.reqId = x
    · subst hx
      have hno : ∀ j : Nat, b.reqIds[j]? ≠ some (some r.reqId) := by
        intro j hj
        rw [(h.index r.reqId j).mpr hj] at hnew
        cases hnew
      rw [if_pos rfl]
      split
      · rename_i hj
        simp [hj]
      · rename_i hj
        simp [hno j, Ne.symm hj]
    · rw [if_neg hx, h.index]
      split
      · rename_i hj
        subst hj
        simp only [Option.some.injEq, hx, iff_false]
        exact fun hjx => hfree ⟨x, hjx⟩
      · rfl
  case lists => exact he.lists h.lists

theorem Gaps.next (h : b.Gaps) (hs : b.Shaped)
    (hi : b.batchUpdateBuilder.popRemoved.1.getD b.numReqs = i) :
    ¬ b.Occupied i ∧
      (∀ j, j ∈ b.batchUpdateBuilder.popRemoved.2.removed ↔
        j ∈ b.batchUpdateBuilder.removed ∧ j ≠ i) ∧
      b.batchUpdateBuilder.popRemoved.2.removed.Nodup ∧ b.batchUpdateBuilder.popRemoved.2.Sorted := by
  by_cases hnil : b.batchUpdateBuilder.removed = []
  · have hfull : ∀ j, b.Occupied j ↔ j < b.reqIds.length := by
      intro j
      refine ⟨Occupied.lt, fun hj => ?_⟩
      rcases b.occupied_or j with hocc | hempty | hge
      · exact hocc
      · have hmem := h.empty j hempty
        rw [hnil] at hmem
        cases hmem
      · exact absurd hj (Nat.not_lt.mpr hge)
    rw [BatchUpdateBuilder.popRemoved_of_nil hnil, Option.getD_none] at hi
    rw [BatchUpdateBuilder.popRemoved_of_nil hnil]
    refine ⟨?_, fun j => by simp [hnil], h.nodup, h.sorted⟩
    rw [hfull, ← hi, hs.numReqs_eq hfull]
    exact Nat.lt_irrefl _
  · obtain ⟨rest, e, hpop, -, hperm, hsorted⟩ := BatchUpdateBuilder.popRemoved_spec h.sorted hnil
    have hnodup : (rest ++ [e]).Nodup := hperm.nodup_iff.mpr h.nodup
    rw [hpop] at hi ⊢
    change e = i at hi
    subst hi
    have hnot : e ∉ rest := fun he =>
      (List.nodup_append.mp hnodup).2.2 e he e (List.mem_singleton_self e) rfl
    refine ⟨h.free e (hperm.mem_iff.mp (by simp)), fun j => ?_,
      (List.nodup_append.mp hnodup).1, fun _ => (List.pairwise_append.mp hsorted).1⟩
    rw [← hperm.mem_iff, List.mem_append, List.mem_singleton]
    constructor
    · exact fun hj => ⟨.inl hj, fun heq => hnot (heq ▸ hj)⟩
    · exact fun ⟨hj, hne⟩ => hj.resolve_right hne

theorem Gaps.entered (h : b.Gaps) (hs : b.Shaped)
    (hi : b.batchUpdateBuilder.popRemoved.1.getD b.numReqs = i) (he : b.Entered i r b') :
    b'.Gaps := by
  obtain ⟨-, hmem, hnodup, hsorted⟩ := h.next hs hi
  constructor
  case empty =>
    intro j hj
    rw [he.slots] at hj
    rw [he.removed, hmem]
    split at hj
    · cases hj
    · rename_i hne
      exact ⟨h.empty j hj, hne⟩
  case free =>
    rintro j hj ⟨x, hx⟩
    rw [he.removed, hmem] at hj
    rw [he.slots, if_neg hj.2] at hx
    exact h.free j hj.1 ⟨x, hx⟩
  case nodup =>
    rw [he.removed]
    exact hnodup
  case sorted =>
    unfold BatchUpdateBuilder.Sorted
    rw [he.sorted, he.removed]
    exact hsorted

end Add

section Swap

variable {i1 i2 : Nat}

theorem Gaps.swapped (h : b.Gaps) (h1 : b.Occupied i1) (h2 : b.Occupied i2)
    (hslots : ∀ j, b'.reqIds[j]? = b.reqIds[Equiv.swap i1 i2 j]?)
    (hremoved : b'.batchUpdateBuilder.removed = b.batchUpdateBuilder.removed)
    (hsorted : b'.batchUpdateBuilder.isRemovedSorted = b.batchUpdateBuilder.isRemovedSorted) :
    b'.Gaps := by
  have hocc : ∀ j, b.Occupied (Equiv.swap i1 i2 j) → b.Occupied j := by
    intro j hj
    by_cases hj1 : j = i1
    · exact hj1 ▸ h1
    · by_cases hj2 : j = i2
      · exact hj2 ▸ h2
      · rw [Equiv.swap_apply_of_ne_of_ne hj1 hj2] at hj
        exact hj
  constructor
  case empty =>
    intro j hj
    rw [hslots] at hj
    rw [hremoved]
    by_cases hj1 : j = i1
    · obtain ⟨id, hid⟩ := h2
      rw [hj1, Equiv.swap_apply_left, hid] at hj
      cases hj
    · by_cases hj2 : j = i2
      · obtain ⟨id, hid⟩ := h1
        rw [hj2, Equiv.swap_apply_right, hid] at hj
        cases hj
      · rw [Equiv.swap_apply_of_ne_of_ne hj1 hj2] at hj
        exact h.empty j hj
  case free =>
    rintro j hj ⟨x, hx⟩
    rw [hslots] at hx
    rw [hremoved] at hj
    exact h.free j hj (hocc j ⟨x, hx⟩)
  case nodup =>
    rw [hremoved]
    exact h.nodup
  case sorted =>
    unfold BatchUpdateBuilder.Sorted
    rw [hsorted, hremoved]
    exact h.sorted

end Swap

section Refresh

theorem refreshMetadata_keeps (h : b.Shaped) (hfull : none ∉ b.reqIds) :
    (b.refreshMetadata c).2.Shaped ∧ (b.refreshMetadata c).2.Gaps := by
  have hbuilder : ∃ u, (b.refreshMetadata c).2 = b.withBuilder u ∧ u.removed = [] ∧
      u.isRemovedSorted = false := by
    by_cases hc : c.isPoolingModel = true
    · rw [refreshMetadata, if_pos hc]
      exact ⟨_, rfl, rfl, rfl⟩
    · rw [refreshMetadata, if_neg hc]
      refine ⟨_, rfl, ?_⟩
      unfold BatchUpdateBuilder.getAndReset
      split
      · rename_i hnil
        exact ⟨hnil.1, rfl⟩
      · exact ⟨rfl, rfl⟩
  obtain ⟨u, heq, hnil, hunsorted⟩ := hbuilder
  rw [heq]
  have hremoved : (b.withBuilder u).batchUpdateBuilder.removed = [] := hnil
  refine ⟨⟨h.index, h.lists.outputs, h.lists.specs⟩, fun i hi => ?_, fun i hi => ?_, ?_, ?_⟩
  · exact absurd (List.mem_of_getElem? hi) hfull
  · rw [hremoved] at hi
    cases hi
  · rw [hremoved]
    exact List.nodup_nil
  · intro hs
    rw [show (b.withBuilder u).batchUpdateBuilder.isRemovedSorted = false from hunsorted] at hs
    cases hs

end Refresh

end InputBatch

end Vllm.Worker
