import Vllm.RejectionSampler
import Vllm.SamplerLaws

namespace Vllm.Sample

open Segments

variable {vocabSize : Nat}

section Gather

variable {α β γ : Type} {l : List α} {n : α → Nat}

theorem gather_eq_ok {xs ys : List β} {indices : List Nat}
    (h : indices.map (xs[·]?) = ys.map some) : gather xs indices = .ok ys := by
  unfold gather
  induction indices generalizing ys with
  | nil =>
    rw [List.map_eq_nil_iff.1 h.symm]
    rfl
  | cons i indices ih =>
    cases ys with
    | nil => cases h
    | cons y ys =>
      rw [List.map_cons, List.map_cons, List.cons.injEq] at h
      rw [List.mapM_cons, Result.getItem_eq_ok.2 h.1, Result.ok_bind, ih h.2]
      rfl

theorem gather_segments (n : α → Nat) (g : α → Nat → β) (k : α → Nat) (c : α → Nat → Nat)
    (h : ∀ a ∈ l, ∀ i < k a, c a i < n a) :
    gather (l.flatMap fun a => (List.range (n a)).map (g a))
      ((offsets n 0 l).flatMap fun p => (List.range (k p.1)).map fun i => p.2 + c p.1 i) =
      .ok (l.flatMap fun a => (List.range (k a)).map fun i => g a (c a i)) := by
  refine gather_eq_ok ?_
  have hread : ∀ p ∈ offsets n 0 l, ∀ i < k p.1,
      (l.flatMap fun a => (List.range (n a)).map (g a))[p.2 + c p.1 i]? =
        some (g p.1 (c p.1 i)) := by
    intro p hp i hi
    have hmem : p.1 ∈ l := map_fst_offsets n 0 l ▸ List.mem_map_of_mem hp
    have hlt := h p.1 hmem i hi
    rw [getElem?_flatMap_of_mem_offsets (fun a _ => by simp) hp hlt, List.getElem?_map,
      List.getElem?_range hlt]
    rfl
  rw [List.map_flatMap, List.map_flatMap]
  simp only [List.map_map]
  refine Eq.trans (List.flatMap_congr fun p hp => List.map_congr_left fun i hi => ?_)
    (flatMap_eq_flatMap_offsets n 0 l fun a => (List.range (k a)).map fun i =>
      some (g a (c a i))).symm
  exact hread p hp i (List.mem_range.1 hi)

theorem gather_append {xs ys : List β} {indices : List Nat} (rest : List β)
    (h : gather xs indices = .ok ys) : gather (xs ++ rest) indices = .ok ys := by
  unfold gather at *
  induction indices generalizing ys with
  | nil => exact h
  | cons i indices ih =>
    rw [List.mapM_cons] at h ⊢
    simp only [Result.bind_eq_ok, Result.getItem_eq_ok] at h
    obtain ⟨y, hy, ys', hys, h⟩ := h
    have hread : (xs ++ rest)[i]? = some y := by
      rw [List.getElem?_append_left (List.getElem?_eq_some_iff.1 hy).1, hy]
    rw [Result.getItem_eq_ok.2 hread, Result.ok_bind, ih hys]
    exact h

theorem map_getD_range (xs : List β) (x : β) :
    (List.range xs.length).map (fun i => xs.getD i x) = xs := by
  refine List.ext_getElem (by simp) fun i _ hi => ?_
  rw [List.getElem_map, List.getElem_range, List.getD_eq_getElem?_getD, List.getElem?_eq_getElem hi]
  rfl

end Gather

namespace GPUModelRunner

variable {α : Type} {l : List α} {n : α → Nat}

theorem zipWith_cumsum (n : α → Nat) (start : Nat) (l : List α) :
    List.zipWith (· - ·) (cumsum start (l.map n)) (l.map n) = (offsets n start l).map Prod.snd := by
  rw [cumsum_map, map_eq_map_offsets n start l n, List.zipWith_map, List.zipWith_self]
  exact List.map_congr_left fun p _ => Nat.add_sub_cancel p.2 (n p.1)

theorem zipWith_sub_range (start k : Nat) :
    List.zipWith (· - ·) ((List.range k).map (start + ·)) (List.replicate k start) =
      List.range k := by
  refine List.ext_getElem? fun i => ?_
  rw [List.getElem?_zipWith, List.getElem?_map, List.getElem?_replicate]
  by_cases hi : i < k
  · rw [if_pos hi, List.getElem?_range hi]
    exact congrArg some (Nat.add_sub_cancel_left start i)
  · rw [if_neg hi, List.getElem?_eq_none (by simpa using hi)]
    rfl

theorem getCumsumAndArange_ok (h : l ≠ []) :
    getCumsumAndArange (l.map n) =
      .ok ((offsets n 0 l).map (fun p => p.2 + n p.1), l.flatMap fun a => List.range (n a)) := by
  have hne : l.map n ≠ [] := mt List.map_eq_nil_iff.1 h
  have hrepeat : repeatEach ((offsets n 0 l).map Prod.snd) (l.map n) =
      (offsets n 0 l).flatMap fun p => List.replicate (n p.1) p.2 := by
    rw [map_eq_map_offsets n 0 l n, repeatEach_map]
  unfold getCumsumAndArange
  dsimp only
  rw [getLast?_cumsum hne]
  dsimp only
  rw [zipWith_cumsum, hrepeat, Nat.zero_add, List.range_eq_range', range_sum, cumsum_map,
    zipWith_flatMap fun p _ => by simp]
  simp only [zipWith_sub_range]
  rw [flatMap_eq_flatMap_offsets n 0 l fun a => List.range (n a)]
  rfl

theorem spread (start : α × Nat → Nat) (k : α → Nat) :
    List.zipWith (· + ·) (repeatEach ((offsets n 0 l).map start) (l.map k))
        (l.flatMap fun a => List.range (k a)) =
      (offsets n 0 l).flatMap fun p => (List.range (k p.1)).map (start p + ·) := by
  rw [map_eq_map_offsets n 0 l k, repeatEach_map,
    flatMap_eq_flatMap_offsets n 0 l fun a => List.range (k a), zipWith_flatMap fun p _ => by simp]
  simp only [zipWith_replicate_range]

end GPUModelRunner

namespace CachedRequest

variable {r : CachedRequest vocabSize}

abbrev numDraftTokens (r : CachedRequest vocabSize) : Nat := r.specTokenIds.length

/-- Where the last `numDraftTokens + 1` scheduled positions begin. -/
def firstSampled (r : CachedRequest vocabSize) : Nat :=
  r.numScheduledTokens - (r.numDraftTokens + 1)

theorem length_allTokenIds (r : CachedRequest vocabSize) : r.allTokenIds.length =
    r.promptTokenIds.length + r.outputTokenIds.length + r.numDraftTokens := by
  rw [allTokenIds, List.length_append, List.length_append]

theorem Valid.numDraftTokens_lt (h : r.Valid) : r.numDraftTokens < r.numScheduledTokens := by
  have := h.computed
  rw [numScheduledTokens, length_allTokenIds]
  omega

theorem Valid.firstSampled_add (h : r.Valid) : r.numComputedTokens + r.firstSampled + 1 =
    r.promptTokenIds.length + r.outputTokenIds.length := by
  have := h.computed
  rw [firstSampled, numScheduledTokens, length_allTokenIds]
  omega

theorem Valid.drop_drafts (h : r.Valid) :
    (r.allTokenIds.drop r.numComputedTokens).drop (r.numScheduledTokens - r.numDraftTokens) =
      r.specTokenIds := by
  have hplace : r.numComputedTokens + (r.numScheduledTokens - r.numDraftTokens) =
      (r.promptTokenIds ++ r.outputTokenIds).length := by
    have := h.firstSampled_add
    have := h.numDraftTokens_lt
    rw [CachedRequest.firstSampled] at *
    rw [List.length_append]
    omega
  rw [List.drop_drop, hplace, allTokenIds, List.drop_left]

theorem Valid.take_allTokenIds (h : r.Valid) (i : Nat) :
    r.allTokenIds.take (r.numComputedTokens + (r.firstSampled + i) + 1) =
      r.promptTokenIds ++ r.outputTokenIds ++ r.specTokenIds.take i := by
  have hlen : r.numComputedTokens + (r.firstSampled + i) + 1 =
      (r.promptTokenIds ++ r.outputTokenIds).length + i := by
    have := h.firstSampled_add
    rw [List.length_append]
    omega
  rw [hlen, allTokenIds, List.take_length_add_append]

end CachedRequest

namespace GPUModelRunner

section Segment

variable {α : Type} {l : List α} {d : α → Nat} {f : α → List Int}

/-- The metadata of a batch by its segments: the scheduled tokens of `a` are `f a`, and `d a` of
them are drafts. -/
def segmentMetadata (d : α → Nat) (f : α → List Int) (l : List α) : SpecDecodeMetadata where
  draftTokenIds := l.flatMap fun a => (f a).drop ((f a).length - d a)
  numDraftTokens := l.map d
  cuNumDraftTokens := (offsets d 0 l).map fun p => p.2 + d p.1
  cuNumSampledTokens := (offsets (d · + 1) 0 l).map fun p => p.2 + (d p.1 + 1)
  targetLogitsIndices := (offsets (d · + 1) 0 l).flatMap fun p =>
    (List.range (d p.1)).map (p.2 + ·)
  bonusLogitsIndices := (offsets (d · + 1) 0 l).map fun p => p.2 + d p.1
  logitsIndices := (offsets (fun a => (f a).length) 0 l).flatMap fun p =>
    (List.range (d p.1 + 1)).map fun i => p.2 + ((f p.1).length - (d p.1 + 1) + i)

theorem logitsIndices_eq (h : ∀ a ∈ l, d a + 1 ≤ (f a).length) :
    List.zipWith (· + ·)
      (repeatEach (List.zipWith (· - ·) (cumsum 0 (l.map fun a => (f a).length))
        (l.map fun a => d a + 1)) (l.map fun a => d a + 1))
      (l.flatMap fun a => List.range (d a + 1)) = (segmentMetadata d f l).logitsIndices := by
  have hstart : List.zipWith (· - ·) (cumsum 0 (l.map fun a => (f a).length))
      (l.map fun a => d a + 1) =
      (offsets (fun a => (f a).length) 0 l).map fun p =>
        p.2 + ((f p.1).length - (d p.1 + 1)) := by
    rw [cumsum_map, map_eq_map_offsets (fun a => (f a).length) 0 l fun a => d a + 1,
      List.zipWith_map, List.zipWith_self]
    refine List.map_congr_left fun p hp => ?_
    have hmem : p.1 ∈ l := map_fst_offsets (fun a => (f a).length) 0 l ▸ List.mem_map_of_mem hp
    exact Nat.add_sub_assoc (h p.1 hmem) p.2
  rw [hstart, spread]
  simp only [segmentMetadata, Nat.add_assoc]

theorem gather_logitsIndices (rest : List Int) (h : ∀ a ∈ l, d a + 1 ≤ (f a).length) :
    gather (l.flatMap f ++ rest) (segmentMetadata d f l).logitsIndices =
      .ok (l.flatMap fun a => (List.range (d a + 1)).map fun i =>
        (f a).getD ((f a).length - (d a + 1) + i) 0) := by
  have hsegments : l.flatMap f =
      l.flatMap fun a => (List.range (f a).length).map fun i => (f a).getD i 0 :=
    List.flatMap_congr fun a _ => (map_getD_range (f a) 0).symm
  rw [hsegments]
  refine gather_append rest (gather_segments (fun a => (f a).length) (fun a i => (f a).getD i 0)
    (fun a => d a + 1) (fun a i => (f a).length - (d a + 1) + i) fun a ha i hi => ?_)
  have := h a ha
  omega

theorem gather_drafts (h : ∀ a ∈ l, d a + 1 ≤ (f a).length) :
    gather (l.flatMap fun a => (List.range (d a + 1)).map fun i =>
        (f a).getD ((f a).length - (d a + 1) + i) 0)
      ((segmentMetadata d f l).targetLogitsIndices.map (· + 1)) =
      .ok (segmentMetadata d f l).draftTokenIds := by
  have hnext : (segmentMetadata d f l).targetLogitsIndices.map (· + 1) =
      (offsets (d · + 1) 0 l).flatMap fun p => (List.range (d p.1)).map fun i => p.2 + (i + 1) := by
    rw [segmentMetadata, List.map_flatMap]
    simp only [List.map_map]
    rfl
  rw [hnext, gather_segments (fun a => d a + 1)
    (fun a i => (f a).getD ((f a).length - (d a + 1) + i) 0) d (fun _ i => i + 1)
    fun a _ i hi => Nat.succ_lt_succ hi]
  refine congrArg Except.ok (List.flatMap_congr fun a ha => ?_)
  have hlen := h a ha
  have hdrop := map_getD_range ((f a).drop ((f a).length - d a)) 0
  rw [List.length_drop, Nat.sub_sub_self (Nat.le_of_succ_le hlen)] at hdrop
  rw [← hdrop]
  refine List.map_congr_left fun i _ => ?_
  rw [List.getD_eq_getElem?_getD, List.getD_eq_getElem?_getD, List.getElem?_drop]
  congr 2
  omega

theorem calcSpecDecodeMetadata_segments (rest : List Int) (hne : l ≠ [])
    (h : ∀ a ∈ l, d a + 1 ≤ (f a).length) :
    calcSpecDecodeMetadata (l.map d) (cumsum 0 (l.map fun a => (f a).length))
      (l.flatMap f ++ rest) = .ok (segmentMetadata d f l) := by
  have hsampled : (l.map d).map (· + 1) = l.map fun a => d a + 1 := List.map_map
  have htarget : List.zipWith (· + ·)
      (repeatEach (List.zipWith (· - ·)
        ((offsets (fun a => d a + 1) 0 l).map fun p => p.2 + (d p.1 + 1))
        (l.map fun a => d a + 1)) (l.map d))
      (l.flatMap fun a => List.range (d a)) = (segmentMetadata d f l).targetLogitsIndices := by
    rw [← cumsum_map (fun a => d a + 1), zipWith_cumsum, spread]
    rfl
  have hbonus : ((offsets (fun a => d a + 1) 0 l).map fun p => p.2 + (d p.1 + 1)).map (· - 1) =
      (segmentMetadata d f l).bonusLogitsIndices := by
    rw [List.map_map]
    rfl
  have hs := getCumsumAndArange_ok (n := fun a => d a + 1) hne
  have hd := getCumsumAndArange_ok (n := d) hne
  unfold calcSpecDecodeMetadata
  dsimp only
  rw [hsampled, hs, Result.ok_bind]
  dsimp only
  rw [hd, Result.ok_bind]
  dsimp only
  rw [logitsIndices_eq h, htarget, hbonus, gather_logitsIndices rest h, Result.ok_bind,
    gather_drafts h]
  rfl

end Segment

variable {reqs : List (CachedRequest vocabSize)}

def specDecodeMetadata (reqs : List (CachedRequest vocabSize)) : SpecDecodeMetadata where
  draftTokenIds := reqs.flatMap (·.specTokenIds)
  numDraftTokens := reqs.map (·.numDraftTokens)
  cuNumDraftTokens := (offsets (·.numDraftTokens) 0 reqs).map fun p => p.2 + p.1.numDraftTokens
  cuNumSampledTokens := (offsets (·.numDraftTokens + 1) 0 reqs).map fun p =>
    p.2 + (p.1.numDraftTokens + 1)
  targetLogitsIndices := (offsets (·.numDraftTokens + 1) 0 reqs).flatMap fun p =>
    (List.range p.1.numDraftTokens).map (p.2 + ·)
  bonusLogitsIndices := (offsets (·.numDraftTokens + 1) 0 reqs).map fun p =>
    p.2 + p.1.numDraftTokens
  logitsIndices := (offsets (·.numScheduledTokens) 0 reqs).flatMap fun p =>
    (List.range (p.1.numDraftTokens + 1)).map fun i => p.2 + (p.1.firstSampled + i)

theorem calcSpecDecodeMetadata_ok (hne : reqs ≠ []) (hreqs : ∀ r ∈ reqs, r.Valid) :
    calcSpecDecodeMetadata (reqs.map (·.numDraftTokens)) (cumsum 0 (reqs.map (·.numScheduledTokens)))
      (reqs.flatMap fun r => r.allTokenIds.drop r.numComputedTokens) =
      .ok (specDecodeMetadata reqs) := by
  have hlen : ∀ r : CachedRequest vocabSize,
      (r.allTokenIds.drop r.numComputedTokens).length = r.numScheduledTokens :=
    fun r => List.length_drop
  have hsegments := calcSpecDecodeMetadata_segments (d := (·.numDraftTokens))
    (f := fun r : CachedRequest vocabSize => r.allTokenIds.drop r.numComputedTokens) [] hne
    fun r hr => (hreqs r hr).numDraftTokens_lt.trans_eq (hlen r).symm
  have hdrafts : reqs.flatMap (fun r => (r.allTokenIds.drop r.numComputedTokens).drop
      (r.numScheduledTokens - r.numDraftTokens)) = reqs.flatMap (·.specTokenIds) :=
    List.flatMap_congr fun r hr => (hreqs r hr).drop_drafts
  rw [List.append_nil] at hsegments
  simp only [hlen] at hsegments
  rw [hsegments]
  simp only [segmentMetadata, specDecodeMetadata, hlen, hdrafts]
  rfl

end GPUModelRunner

end Vllm.Sample
