import Mathlib.Data.List.Perm.Basic
import Vllm.RejectionLaws

namespace Vllm.Sample

open Segments

def scatter {ρ : Type} (xs : List ρ) (indices : List Nat) (values : List ρ) : Result (List ρ) := do
  Result.ensure (indices.length = values.length) "shape mismatch"
  (indices.zip values).foldlM
    (fun xs p => if p.1 < xs.length then .ok (xs.set p.1 p.2) else .error .indexError) xs

namespace RejectionSampler

variable {ρ τ : Type}

def acceptedLogitIndices (metadata : SpecDecodeMetadata) (numLogits width : Nat) : List Nat :=
  (0 :: metadata.cuNumSampledTokens).dropLast.flatMap fun start =>
    (List.range width).map fun offset => min (start + offset) (numLogits - 1)

def acceptedTokens (sampledTokenIds : List (List Int)) : List Int :=
  sampledTokenIds.flatten.map fun token => if token = placeholderTokenId then 0 else token

/-- `zero` is a row of zeros, and `gatherLogprobs` computes the logprobs of the rows and takes out
those that are wanted. -/
def getLogprobsTensors (zero : ρ) (gatherLogprobs : List ρ → List Int → τ)
    (metadata : SpecDecodeMetadata) (logits targetLogits bonusLogits : List ρ)
    (sampledTokenIds : List (List Int)) : Result τ := do
  let finalLogits := logits.map fun _ => zero
  let finalLogits ← scatter finalLogits metadata.targetLogitsIndices targetLogits
  let finalLogits ← scatter finalLogits metadata.bonusLogitsIndices bonusLogits
  let width := (sampledTokenIds.headD []).length
  let acceptedLogits ← gather finalLogits (acceptedLogitIndices metadata finalLogits.length width)
  return gatherLogprobs acceptedLogits (acceptedTokens sampledTokenIds)

end RejectionSampler

section Scatter

variable {ρ : Type} {indices : List Nat} {values : List ρ}

theorem scatter_ok (xs : List ρ) (hlen : indices.length = values.length) (hnodup : indices.Nodup)
    (hlt : ∀ k ∈ indices, k < xs.length) : ∃ ys, scatter xs indices values = .ok ys ∧
      ys.length = xs.length ∧ (∀ i k : Nat, indices[i]? = some k → ys[k]? = values[i]?) ∧
      ∀ k ∉ indices, ys[k]? = xs[k]? := by
  unfold scatter
  rw [Result.ensure, if_pos hlen]
  show ∃ ys, List.foldlM _ xs _ = _ ∧ _
  induction indices generalizing xs values with
  | nil => exact ⟨xs, rfl, rfl, (fun _ _ h => by cases h), fun _ _ => rfl⟩
  | cons k indices ih =>
    cases values with
    | nil => cases hlen
    | cons v values =>
      obtain ⟨hk, hlt⟩ := List.forall_mem_cons.1 hlt
      obtain ⟨hnot, hnodup⟩ := List.nodup_cons.1 hnodup
      obtain ⟨ys, hok, hys, hset, hrest⟩ := ih (xs.set k v) (Nat.succ.inj hlen) hnodup
        (by simpa using hlt)
      refine ⟨ys, ?_, by rw [hys, List.length_set], fun i k' hi => ?_, fun k' hk' => ?_⟩
      · rw [List.zip_cons_cons, List.foldlM_cons, if_pos hk]
        exact hok
      · cases i with
        | zero =>
          cases hi
          rw [hrest k hnot, List.getElem?_set_self hk]
          rfl
        | succ i => exact hset i k' hi
      · obtain ⟨hne, hk'⟩ := not_or.1 (mt List.mem_cons.2 hk')
        rw [hrest k' hk', List.getElem?_set_ne (Ne.symm hne)]

end Scatter

theorem gather_ok {ρ : Type} (xs : List ρ) (indices : List Nat)
    (hlt : ∀ k ∈ indices, k < xs.length) : ∃ ys, gather xs indices = .ok ys ∧
      ys.length = indices.length ∧ ∀ i k : Nat, indices[i]? = some k → ys[i]? = xs[k]? := by
  unfold gather
  induction indices with
  | nil => exact ⟨[], rfl, rfl, nofun⟩
  | cons k indices ih =>
    obtain ⟨hk, hlt⟩ := List.forall_mem_cons.1 hlt
    obtain ⟨ys, hok, hlen, hread⟩ := ih hlt
    refine ⟨xs[k] :: ys, ?_, congrArg Nat.succ hlen, fun i k' hi => ?_⟩
    · rw [List.mapM_cons, Result.getItem_eq_ok.2 (List.getElem?_eq_getElem hk), Result.ok_bind, hok]
      rfl
    · cases i with
      | zero =>
        cases hi
        exact (List.getElem?_eq_getElem hk).symm
      | succ i => exact hread i k' hi

section Rows

variable {α β : Type} {l pre post : List α} {a : α} {d n : α → Nat}

theorem rows_perm (d : α → Nat) (l : List α) :
    (((offsets (d · + 1) 0 l).flatMap fun p => (List.range (d p.1)).map (p.2 + ·)) ++
      (offsets (d · + 1) 0 l).map fun p => p.2 + d p.1).Perm
      (List.range (l.map (d · + 1)).sum) := by
  rw [List.range_eq_range', range_sum, List.map_eq_flatMap]
  refine (List.flatMap_append_perm _ _ _).trans (List.Perm.of_eq ?_)
  refine List.flatMap_congr fun p _ => ?_
  rw [List.range_succ, List.map_append]
  rfl

theorem dropLast_cumsum (n : α → Nat) (start : Nat) (l : List α) :
    (start :: (offsets n start l).map fun p => p.2 + n p.1).dropLast =
      (offsets n start l).map Prod.snd := by
  induction l generalizing start with
  | nil => rfl
  | cons a l ih => exact congrArg (start :: ·) (ih (start + n a))

theorem getElem?_flatMap_offsets {f : α × Nat → List β} {k : α → Nat} {i : Nat}
    (hl : l = pre ++ a :: post) (hf : ∀ p, (f p).length = k p.1) (hi : i < k a) :
    ((offsets n 0 l).flatMap f)[(pre.map k).sum + i]? = (f (a, (pre.map n).sum))[i]? := by
  have hsplit : offsets n 0 l = offsets n 0 pre ++
      (a, (pre.map n).sum) :: offsets n ((pre.map n).sum + n a) post := by
    rw [hl, offsets_append, Nat.zero_add]
    rfl
  have hpre : ((offsets n 0 pre).flatMap f).length = (pre.map k).sum := by
    rw [List.length_flatMap, map_eq_map_offsets n 0 pre k]
    exact congrArg List.sum (List.map_congr_left fun p _ => hf p)
  rw [← hpre]
  exact getElem?_flatMap_offset hsplit ((hf _).symm ▸ hi)

end Rows

/-- A request of a speculative batch; its last scheduled tokens are drafts. -/
structure Scheduled where
  tokens : List Int
  numDrafts : Nat
  enough : numDrafts + 1 ≤ tokens.length

structure Layout (batch : List Scheduled) (m : SpecDecodeMetadata) : Prop where
  logits : m.logitsIndices = (offsets (·.tokens.length) 0 batch).flatMap fun p =>
    (List.range (p.1.numDrafts + 1)).map fun i => p.2 + (p.1.tokens.length - (p.1.numDrafts + 1) + i)
  target : m.targetLogitsIndices = (offsets (·.numDrafts + 1) 0 batch).flatMap fun p =>
    (List.range p.1.numDrafts).map (p.2 + ·)
  bonus : m.bonusLogitsIndices = (offsets (·.numDrafts + 1) 0 batch).map fun p =>
    p.2 + p.1.numDrafts
  partition : (m.targetLogitsIndices ++ m.bonusLogitsIndices).Perm
    (List.range (batch.map (·.numDrafts + 1)).sum)
  drafts : m.draftTokenIds = batch.flatMap fun r => r.tokens.drop (r.tokens.length - r.numDrafts)
  logprobs : ∀ {ρ τ : Type} (zero : ρ) (gatherLogprobs : List ρ → List Int → τ)
    (logits targetLogits bonusLogits : List ρ) (sampledTokenIds : List (List Int)),
    logits.length = (batch.map (·.numDrafts + 1)).sum →
    targetLogits.length = (batch.map (·.numDrafts)).sum → bonusLogits.length = batch.length →
    (∀ row ∈ sampledTokenIds, row.length = m.maxSpecLen + 1) →
    sampledTokenIds.length = batch.length →
    ∃ rows, RejectionSampler.getLogprobsTensors zero gatherLogprobs m logits targetLogits
        bonusLogits sampledTokenIds =
          .ok (gatherLogprobs rows (RejectionSampler.acceptedTokens sampledTokenIds)) ∧
      rows.length = batch.length * (m.maxSpecLen + 1) ∧
      ∀ pre r post, batch = pre ++ r :: post → ∀ j ≤ r.numDrafts,
        (RejectionSampler.acceptedLogitIndices m logits.length (m.maxSpecLen + 1))[
            pre.length * (m.maxSpecLen + 1) + j]? = some ((pre.map (·.numDrafts + 1)).sum + j) ∧
        rows[pre.length * (m.maxSpecLen + 1) + j]? =
          if j < r.numDrafts then targetLogits[(pre.map (·.numDrafts)).sum + j]?
          else bonusLogits[pre.length]?

namespace Layout

variable {batch pre post : List Scheduled} {r : Scheduled}

abbrev metadata (batch : List Scheduled) : SpecDecodeMetadata :=
  GPUModelRunner.segmentMetadata (·.numDrafts) (·.tokens) batch

theorem numDrafts_le (hbatch : batch = pre ++ r :: post) :
    r.numDrafts ≤ (metadata batch).maxSpecLen :=
  (le_foldl_max 0).2 _ (List.mem_map_of_mem (hbatch ▸ List.mem_append_right _ List.mem_cons_self))

theorem getElem?_targets (hbatch : batch = pre ++ r :: post) {j : Nat} (hj : j < r.numDrafts) :
    (metadata batch).targetLogitsIndices[(pre.map (·.numDrafts)).sum + j]? =
      some ((pre.map (·.numDrafts + 1)).sum + j) := by
  refine (getElem?_flatMap_offsets (k := fun r : Scheduled => r.numDrafts) hbatch
    (fun p => by simp) hj).trans ?_
  rw [List.getElem?_map, List.getElem?_range hj]
  rfl

theorem getElem?_bonus (hbatch : batch = pre ++ r :: post) :
    (metadata batch).bonusLogitsIndices[pre.length]? =
      some ((pre.map (·.numDrafts + 1)).sum + r.numDrafts) := by
  show ((offsets _ 0 batch).map _)[_]? = _
  rw [hbatch, offsets_append, List.map_append, List.getElem?_append_right (by simp [length_offsets]),
    List.length_map, length_offsets, Nat.sub_self, Nat.zero_add]
  rfl

theorem acceptedLogitIndices_eq (batch : List Scheduled) (numLogits width : Nat) :
    RejectionSampler.acceptedLogitIndices (metadata batch) numLogits width =
      (offsets (·.numDrafts + 1) 0 batch).flatMap fun p =>
        (List.range width).map fun offset => min (p.2 + offset) (numLogits - 1) := by
  have hstarts := dropLast_cumsum (fun r : Scheduled => r.numDrafts + 1) 0 batch
  show (0 :: (offsets (fun r : Scheduled => r.numDrafts + 1) 0 batch).map fun p =>
    p.2 + (p.1.numDrafts + 1)).dropLast.flatMap _ = _
  rw [hstarts, List.flatMap_map]

theorem getElem?_accepted (hbatch : batch = pre ++ r :: post) {width j : Nat}
    (hwidth : j < width) (hj : j ≤ r.numDrafts) :
    (RejectionSampler.acceptedLogitIndices (metadata batch) (batch.map (·.numDrafts + 1)).sum
      width)[pre.length * width + j]? = some ((pre.map (·.numDrafts + 1)).sum + j) := by
  have hlt : (pre.map (·.numDrafts + 1)).sum + j ≤ (batch.map (·.numDrafts + 1)).sum - 1 := by
    rw [hbatch, List.map_append, List.sum_append, List.map_cons, List.sum_cons]
    omega
  have hpre : pre.length * width = (pre.map fun _ => width).sum := by simp
  rw [acceptedLogitIndices_eq, hpre]
  refine (getElem?_flatMap_offsets (k := fun _ => width) hbatch (fun p => by simp) hwidth).trans ?_
  rw [List.getElem?_map, List.getElem?_range hwidth, Option.map_some, Nat.min_eq_left hlt]

theorem accepted_lt (hne : batch ≠ []) {width : Nat} :
    ∀ k ∈ RejectionSampler.acceptedLogitIndices (metadata batch)
      (batch.map (·.numDrafts + 1)).sum width, k < (batch.map (·.numDrafts + 1)).sum := by
  intro k hk
  obtain ⟨start, -, hk⟩ := List.mem_flatMap.1 hk
  obtain ⟨offset, -, rfl⟩ := List.mem_map.1 hk
  obtain ⟨r, batch, rfl⟩ := List.exists_cons_of_ne_nil hne
  rw [List.map_cons, List.sum_cons]
  omega

theorem length_accepted (batch : List Scheduled) (numLogits width : Nat) :
    (RejectionSampler.acceptedLogitIndices (metadata batch) numLogits width).length =
      batch.length * width := by
  rw [acceptedLogitIndices_eq, List.length_flatMap]
  simp [length_offsets]

section Logprobs

variable {ρ τ : Type} {zero : ρ} {gatherLogprobs : List ρ → List Int → τ}
  {logits targetLogits bonusLogits : List ρ} {sampledTokenIds : List (List Int)}

theorem finalLogits_ok (zero : ρ) (hlogits : logits.length = (batch.map (·.numDrafts + 1)).sum)
    (htarget : targetLogits.length = (batch.map (·.numDrafts)).sum)
    (hbonus : bonusLogits.length = batch.length) : ∃ drafted final,
      scatter (logits.map fun _ => zero) (metadata batch).targetLogitsIndices targetLogits =
        .ok drafted ∧
      scatter drafted (metadata batch).bonusLogitsIndices bonusLogits = .ok final ∧
      final.length = logits.length ∧ ∀ pre r post, batch = pre ++ r :: post →
        ∀ j ≤ r.numDrafts, final[(pre.map (·.numDrafts + 1)).sum + j]? =
          if j < r.numDrafts then targetLogits[(pre.map (·.numDrafts)).sum + j]?
          else bonusLogits[pre.length]? := by
  have hperm := rows_perm (fun r : Scheduled => r.numDrafts) batch
  have hnodup := hperm.nodup_iff.2 List.nodup_range
  obtain ⟨hnodupTarget, hnodupBonus, hdisjoint⟩ := List.nodup_append.1 hnodup
  have hlt : ∀ k ∈ (metadata batch).targetLogitsIndices ++ (metadata batch).bonusLogitsIndices,
      k < logits.length := by
    intro k hk
    rw [hlogits]
    exact List.mem_range.1 (hperm.mem_iff.1 hk)
  have htargetLen : (metadata batch).targetLogitsIndices.length = targetLogits.length := by
    rw [htarget, map_eq_map_offsets (·.numDrafts + 1) 0 batch (·.numDrafts)]
    show ((offsets _ 0 batch).flatMap _).length = _
    rw [List.length_flatMap]
    simp only [List.length_map, List.length_range]
  have hbonusLen : (metadata batch).bonusLogitsIndices.length = bonusLogits.length := by
    show ((offsets _ 0 batch).map _).length = _
    rw [hbonus, List.length_map, length_offsets]
  obtain ⟨drafted, hok, hlen, hset, -⟩ := scatter_ok (logits.map fun _ => zero) htargetLen
    hnodupTarget fun k hk => by simpa using hlt k (List.mem_append_left _ hk)
  rw [List.length_map] at hlen
  obtain ⟨final, hok', hlen', hset', hrest⟩ := scatter_ok drafted hbonusLen hnodupBonus
    fun k hk => hlen ▸ hlt k (List.mem_append_right _ hk)
  refine ⟨drafted, final, hok, hok', hlen'.trans hlen, fun pre r post hbatch j hj => ?_⟩
  split
  · rename_i hj
    have htargets := getElem?_targets hbatch hj
    rw [hrest _ fun hk => hdisjoint _ (List.mem_of_getElem? htargets) _ hk rfl]
    exact hset _ _ htargets
  · rename_i hnot
    have heq : j = r.numDrafts := Nat.le_antisymm hj (Nat.not_lt.1 hnot)
    rw [heq]
    exact hset' _ _ (getElem?_bonus hbatch)

theorem getLogprobsTensors_ok (zero : ρ) (gatherLogprobs : List ρ → List Int → τ)
    (hne : batch ≠ []) (hlogits : logits.length = (batch.map (·.numDrafts + 1)).sum)
    (htarget : targetLogits.length = (batch.map (·.numDrafts)).sum)
    (hbonus : bonusLogits.length = batch.length)
    (hwidth : ∀ row ∈ sampledTokenIds, row.length = (metadata batch).maxSpecLen + 1)
    (hrows : sampledTokenIds.length = batch.length) :
    ∃ rows, RejectionSampler.getLogprobsTensors zero gatherLogprobs (metadata batch) logits
        targetLogits bonusLogits sampledTokenIds =
          .ok (gatherLogprobs rows (RejectionSampler.acceptedTokens sampledTokenIds)) ∧
      rows.length = batch.length * ((metadata batch).maxSpecLen + 1) ∧
      ∀ pre r post, batch = pre ++ r :: post → ∀ j ≤ r.numDrafts,
        rows[pre.length * ((metadata batch).maxSpecLen + 1) + j]? =
          if j < r.numDrafts then targetLogits[(pre.map (·.numDrafts)).sum + j]?
          else bonusLogits[pre.length]? := by
  obtain ⟨drafted, final, hok, hok', hlen, hfinal⟩ :=
    finalLogits_ok zero hlogits htarget hbonus
  have hhead : (sampledTokenIds.headD []).length = (metadata batch).maxSpecLen + 1 := by
    cases sampledTokenIds with
    | nil => exact absurd (List.length_eq_zero_iff.1 hrows.symm) hne
    | cons row sampledTokenIds => exact hwidth row List.mem_cons_self
  obtain ⟨rows, hgather, hcount, hread⟩ := gather_ok final
    (RejectionSampler.acceptedLogitIndices (metadata batch)
      (batch.map (·.numDrafts + 1)).sum ((metadata batch).maxSpecLen + 1))
    (by
      rw [hlen, hlogits]
      exact accepted_lt hne)
  refine ⟨rows, ?_, hcount.trans (length_accepted ..), fun pre r post hbatch j hj => ?_⟩
  · unfold RejectionSampler.getLogprobsTensors
    dsimp only
    rw [hok, Result.ok_bind, hok', Result.ok_bind, hhead, hlen, hlogits, hgather]
    rfl
  · have hj' : j < (metadata batch).maxSpecLen + 1 :=
      Nat.lt_succ_of_le (hj.trans (numDrafts_le hbatch))
    rw [hread _ _ (getElem?_accepted hbatch hj' hj)]
    exact hfinal pre r post hbatch j hj

end Logprobs

end Layout

/-- For every batch of requests, each scheduled with its drafts and at least one token before them,
the index vectors pick out the rows and positions of each request. -/
theorem GPUModelRunner.calcSpecDecodeMetadata_layout (batch : List Scheduled) (rest : List Int)
    (hne : batch ≠ []) :
    ∃ m, GPUModelRunner.calcSpecDecodeMetadata (batch.map (·.numDrafts))
        (cumsum 0 (batch.map (·.tokens.length))) (batch.flatMap (·.tokens) ++ rest) = .ok m ∧
      Layout batch m := by
  refine ⟨_, GPUModelRunner.calcSpecDecodeMetadata_segments rest hne fun r _ => r.enough, ?_⟩
  constructor
  case logits => rfl
  case target => rfl
  case bonus => rfl
  case partition => exact rows_perm _ batch
  case drafts => rfl
  case logprobs =>
    intro ρ τ zero gatherLogprobs logits targetLogits bonusLogits sampledTokenIds hlogits htarget
      hbonus hwidth hrows
    obtain ⟨rows, hok, hlen, hread⟩ := Layout.getLogprobsTensors_ok zero gatherLogprobs hne
      hlogits htarget hbonus hwidth hrows
    refine ⟨rows, hok, hlen, fun pre r post hbatch j hj => ⟨?_, hread pre r post hbatch j hj⟩⟩
    rw [hlogits]
    exact Layout.getElem?_accepted hbatch
      (Nat.lt_succ_of_le (hj.trans (Layout.numDrafts_le hbatch))) hj

theorem GPUModelRunner.calcSpecDecodeMetadata_layout_two :
    ∃ m, GPUModelRunner.calcSpecDecodeMetadata [2, 0] [4, 5] [7, 8, 9, 10, 11] = .ok m ∧
      Layout [⟨[7, 8, 9, 10], 2, by decide⟩, ⟨[11], 0, by decide⟩] m :=
  GPUModelRunner.calcSpecDecodeMetadata_layout
    [⟨[7, 8, 9, 10], 2, by decide⟩, ⟨[11], 0, by decide⟩] [] (by simp)

end Vllm.Sample
