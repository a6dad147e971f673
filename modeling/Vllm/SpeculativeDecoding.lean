import Mathlib.Algebra.Field.Rat
import Vllm.RejectionRows

namespace Vllm.Sample

open Segments

variable {vocabSize : Nat}

namespace RejectionSampler

def verified : List Int → List Int → Int → List Int
  | draft :: drafts, target :: targets, bonus =>
    if draft = target then target :: verified drafts targets bonus else [target]
  | _, _, bonus => [bonus]

theorem mem_verified {drafts targets : List Int} {bonus token : Int}
    (h : token ∈ verified drafts targets bonus) : token ∈ targets ∨ token = bonus := by
  induction drafts generalizing targets with
  | nil => exact .inr (List.mem_singleton.1 h)
  | cons draft drafts ih =>
    cases targets with
    | nil => exact .inr (List.mem_singleton.1 h)
    | cons target targets =>
      rw [verified] at h
      split at h
      · rcases List.mem_cons.1 h with rfl | h
        · exact .inl List.mem_cons_self
        · exact (ih h).imp_left (List.mem_cons_of_mem _)
      · rw [List.mem_singleton.1 h]
        exact .inl List.mem_cons_self

def padded (len : Nat) (tokens : List Int) : List Int :=
  tokens ++ List.replicate (len - tokens.length) placeholderTokenId

section Kernel

variable {draftTokenIds targetArgmax : List Int} {startIdx len : Nat}

theorem checkDraft_rejected (row : List Int) (positions : List Nat) :
    positions.foldlM (checkDraft draftTokenIds targetArgmax startIdx) (row, true) =
      .ok (row, true) := by
  induction positions with
  | nil => rfl
  | cons pos positions ih => exact ih

theorem store_padded {tokens : List Int} (h : tokens.length < len) (token : Int) :
    store (padded len tokens) tokens.length token = .ok (padded len (tokens ++ [token])) := by
  have hlt : tokens.length < (padded len tokens).length := by
    rw [padded, List.length_append, List.length_replicate]
    omega
  rw [store, if_pos hlt, padded, padded, List.set_append_right _ _ (Nat.le_refl _), Nat.sub_self,
    List.length_append, List.length_singleton,
    show len - tokens.length = len - (tokens.length + 1) + 1 by omega, List.replicate_succ,
    List.set_cons_zero, List.append_assoc, List.singleton_append]

theorem checkDrafts_ok {drafts targets kept : List Int} (hlen : drafts.length = targets.length)
    (hroom : kept.length + drafts.length < len)
    (hdrafts : ∀ (i : Nat) x, drafts[i]? = some x →
      draftTokenIds[startIdx + (kept.length + i)]? = some x)
    (htargets : ∀ (i : Nat) x, targets[i]? = some x →
      targetArgmax[startIdx + (kept.length + i)]? = some x) :
    ∃ st, (List.range' kept.length drafts.length).foldlM
        (checkDraft draftTokenIds targetArgmax startIdx) (padded len kept, false) = .ok st ∧
      ∀ bonus, (if st.2 then .ok st.1 else store st.1 (kept.length + drafts.length) bonus) =
        (.ok (padded len (kept ++ verified drafts targets bonus)) : Result (List Int)) := by
  induction drafts generalizing targets kept with
  | nil =>
    refine ⟨_, rfl, fun bonus => ?_⟩
    exact store_padded hroom bonus
  | cons draft drafts ih =>
    cases targets with
    | nil => cases hlen
    | cons target targets =>
      have hone : checkDraft draftTokenIds targetArgmax startIdx (padded len kept, false)
          kept.length = .ok (padded len (kept ++ [target]), decide (draft ≠ target)) := by
        have hd := hdrafts 0 draft rfl
        have ht := htargets 0 target rfl
        rw [Nat.add_zero] at hd ht
        rw [checkDraft, if_neg Bool.false_ne_true, Result.getItem_eq_ok.2 hd, Result.ok_bind,
          Result.getItem_eq_ok.2 ht, Result.ok_bind, store_padded (by omega)]
        rfl
      rw [List.length_cons, List.range'_succ, List.foldlM_cons, hone, Result.ok_bind]
      by_cases hsame : draft = target
      · have hnext : (kept ++ [target]).length = kept.length + 1 := by simp
        obtain ⟨st, hok, hst⟩ := ih (Nat.succ.inj hlen)
          (show (kept ++ [target]).length + drafts.length < len by
            rw [List.length_cons] at hroom
            omega)
          (fun i x hi => by
            rw [hnext, Nat.add_assoc, Nat.add_comm 1]
            exact hdrafts (i + 1) x hi)
          (fun i x hi => by
            rw [hnext, Nat.add_assoc, Nat.add_comm 1]
            exact htargets (i + 1) x hi)
        refine ⟨st, ?_, fun bonus => ?_⟩
        · rw [decide_eq_false (not_not.2 hsame), ← hnext]
          exact hok
        · have h := hst bonus
          rw [hnext, Nat.add_assoc, Nat.add_comm 1, List.append_assoc,
            List.singleton_append] at h
          rw [verified, if_pos hsame]
          exact h
      · refine ⟨(padded len (kept ++ [target]), true), ?_, fun bonus => ?_⟩
        · rw [decide_eq_true hsame]
          exact checkDraft_rejected _ _
        · rw [verified, if_neg hsame]
          rfl

end Kernel

section Program

variable {reqs : List (CachedRequest vocabSize)} {next bonus : CachedRequest vocabSize → Int}
  {target : CachedRequest vocabSize → Nat → Int} {len : Nat}

theorem rejectionGreedySampleKernel_ok {i : Nat} {r : CachedRequest vocabSize}
    (hr : reqs[i]? = some r) (hlen : r.numDraftTokens < len) :
    rejectionGreedySampleKernel (GPUModelRunner.specDecodeMetadata reqs).cuNumDraftTokens
      (reqs.flatMap (·.specTokenIds))
      (reqs.flatMap fun r => (List.range r.numDraftTokens).map (target r)) (reqs.map bonus) i
      (padded len []) =
      .ok (padded len (verified r.specTokenIds ((List.range r.numDraftTokens).map (target r))
        (bonus r))) := by
  have hplace : ∃ p, (offsets (·.numDraftTokens) 0 reqs)[i]? = some p ∧ p.1 = r := by
    have h := congrArg (·[i]?) (map_fst_offsets (·.numDraftTokens) 0 reqs)
    rw [List.getElem?_map, hr] at h
    obtain ⟨p, hp, hfst⟩ := Option.map_eq_some_iff.1 h
    exact ⟨p, hp, hfst⟩
  obtain ⟨⟨_, startIdx⟩, hp, rfl⟩ := hplace
  dsimp only at hr hlen ⊢
  rename_i r
  have hmem := List.mem_of_getElem? hp
  have hend : (GPUModelRunner.specDecodeMetadata reqs).cuNumDraftTokens[i]? =
      some (startIdx + r.numDraftTokens) := by
    rw [GPUModelRunner.specDecodeMetadata, List.getElem?_map, hp]
    rfl
  have hstart : startIndex (GPUModelRunner.specDecodeMetadata reqs).cuNumDraftTokens i =
      .ok startIdx := by
    unfold startIndex
    cases i with
    | zero => rw [if_pos rfl, show startIdx = 0 from offsets_zero hp]
    | succ i =>
      have hbefore : ∃ q, (offsets (·.numDraftTokens) 0 reqs)[i]? = some q :=
        ⟨_, List.getElem?_eq_getElem (Nat.lt_of_succ_lt (List.getElem?_eq_some_iff.1 hp).1)⟩
      obtain ⟨q, hq⟩ := hbefore
      have hnext : startIdx = q.2 + q.1.numDraftTokens := offsets_succ hq hp
      rw [if_neg (Nat.succ_ne_zero i), Nat.add_sub_cancel, Result.getItem_eq_ok,
        GPUModelRunner.specDecodeMetadata, List.getElem?_map, hq, Option.map_some, hnext]
  have hdrafts : ∀ (j : Nat) x, r.specTokenIds[j]? = some x →
      (reqs.flatMap (·.specTokenIds))[startIdx + (0 + j)]? = some x := by
    intro j x hj
    rw [Nat.zero_add, getElem?_flatMap_of_mem_offsets (fun _ _ => rfl) hmem
      (List.getElem?_eq_some_iff.1 hj).1]
    exact hj
  have htargets : ∀ (j : Nat) x, ((List.range r.numDraftTokens).map (target r))[j]? = some x →
      (reqs.flatMap fun r => (List.range r.numDraftTokens).map (target r))[startIdx + (0 + j)]? =
        some x := by
    intro j x hj
    have hlt : j < r.numDraftTokens := by simpa using (List.getElem?_eq_some_iff.1 hj).1
    rw [Nat.zero_add, getElem?_flatMap_of_mem_offsets (fun _ _ => by simp) hmem hlt]
    exact hj
  have hroom : ([] : List Int).length + r.specTokenIds.length < len := by
    rw [List.length_nil, Nat.zero_add]
    exact hlen
  obtain ⟨st, hloop, hst⟩ := checkDrafts_ok (by simp) hroom hdrafts htargets
  have hbonus : (reqs.map bonus)[i]? = some (bonus r) := by
    rw [List.getElem?_map, hr]
    rfl
  unfold rejectionGreedySampleKernel
  rw [hstart, Result.ok_bind, Result.getItem_eq_ok.2 hend, Result.ok_bind]
  dsimp only
  rw [List.length_nil, ← List.range_eq_range'] at hloop
  rw [Nat.add_sub_cancel_left, hloop, Result.ok_bind, Result.getItem_eq_ok.2 hbonus,
    Result.ok_bind]
  have h := hst (bonus r)
  rw [List.length_nil, Nat.zero_add, List.nil_append] at h
  exact h

end Program

section Forward

variable {reqs : List (CachedRequest vocabSize)} {logitsOf : List Int → Row}

def nextToken (logitsOf : List Int → Row) (r : CachedRequest vocabSize) (more : List Int) : Int :=
  Position.next
    { request := r
      past := r.outputTokenIds ++ more
      logits := logitsOf (r.promptTokenIds ++ r.outputTokenIds ++ more) }

def kept (logitsOf : List Int → Row) (r : CachedRequest vocabSize) : List Int :=
  verified r.specTokenIds
    ((List.range r.numDraftTokens).map fun i => nextToken logitsOf r (r.specTokenIds.take i))
    (nextToken logitsOf r r.specTokenIds)

theorem le_maxSpecLen {r : CachedRequest vocabSize} (hr : r ∈ reqs) :
    r.numDraftTokens ≤ (GPUModelRunner.specDecodeMetadata reqs).maxSpecLen :=
  (le_foldl_max 0).2 _ (List.mem_map_of_mem hr)

theorem rejectionSample_ok (hvocab : 0 < vocabSize)
    (hxs : ∀ x ∈ targets logitsOf reqs, x.Valid) {bonus : CachedRequest vocabSize → Int} :
    rejectionSample (GPUModelRunner.specDecodeMetadata reqs)
      ((targets logitsOf reqs).map (·.processed)) (reqs.map bonus) =
      .ok (reqs.map fun r =>
        padded ((GPUModelRunner.specDecodeMetadata reqs).maxSpecLen + 1)
          (verified r.specTokenIds ((List.range r.numDraftTokens).map fun i =>
            nextToken logitsOf r (r.specTokenIds.take i)) (bonus r))) := by
  have hshape : ((targets logitsOf reqs).map (·.processed)).length =
      (GPUModelRunner.specDecodeMetadata reqs).draftTokenIds.length := by
    rw [map_targets, GPUModelRunner.specDecodeMetadata, List.length_flatMap, List.length_flatMap]
    simp
  have hargmax : (targets logitsOf reqs).map (·.next) =
      reqs.flatMap fun r => (List.range r.numDraftTokens).map fun i =>
        nextToken logitsOf r (r.specTokenIds.take i) := map_targets _
  unfold rejectionSample
  rw [Result.ensure, if_pos hshape, Result.ok_bind, Sampler.greedySample_ok hvocab hxs,
    Result.ok_bind, hargmax]
  have hnum : (GPUModelRunner.specDecodeMetadata reqs).numDraftTokens.length = reqs.length :=
    List.length_map _
  rw [hnum]
  refine mapM_range fun i r hr => ?_
  refine rejectionGreedySampleKernel_ok hr (Nat.lt_succ_of_le ?_)
  exact le_maxSpecLen (List.mem_of_getElem? hr)

def bonuses (logitsOf : List Int → Row) (reqs : List (CachedRequest vocabSize)) :
    List (Position vocabSize) :=
  reqs.map fun r => position logitsOf r r.numDraftTokens

theorem bonus_ok (hvocab : 0 < vocabSize) (hwidth : ∀ h, (logitsOf h).length = vocabSize)
    (hreqs : ∀ r ∈ reqs, r.Valid) :
    Sampler.forward vocabSize (reqs.map fun r => (position logitsOf r r.numDraftTokens).logits)
      (InputBatch.makeSamplingMetadata reqs) true =
      .ok (reqs.map fun r => nextToken logitsOf r r.specTokenIds) := by
  have hvalid : ∀ x ∈ bonuses logitsOf reqs, x.Valid := by
    intro x hx
    obtain ⟨r, hr, rfl⟩ := List.mem_map.1 hx
    exact position_valid hwidth (hreqs r hr) _
  have hpast : ∀ x ∈ bonuses logitsOf reqs, Sampler.PastOf true x := by
    intro x hx
    obtain ⟨r, hr, rfl⟩ := List.mem_map.1 hx
    show r.outputTokenIds ++ r.specTokenIds.take r.specTokenIds.length = _
    rw [List.take_length]
    rfl
  have hrequest : (bonuses logitsOf reqs).map (·.request) = reqs := by
    rw [bonuses, List.map_map]
    exact List.map_id reqs
  have h := Sampler.forward_ok hvocab hvalid hpast
  rw [hrequest, bonuses, List.map_map, List.map_map] at h
  refine h.trans (congrArg Except.ok (List.map_congr_left fun r _ => ?_))
  show nextToken logitsOf r (r.specTokenIds.take r.specTokenIds.length) = _
  rw [List.take_length]

theorem forward_ok (hvocab : 0 < vocabSize) (hwidth : ∀ h, (logitsOf h).length = vocabSize)
    (hreqs : ∀ r ∈ reqs, r.Valid) (hspec : ∀ r ∈ reqs, r.numDraftTokens ≤ maxSpecLenBound) :
    forward vocabSize (GPUModelRunner.specDecodeMetadata reqs)
      (reqs.flatMap fun r => (List.range (r.numDraftTokens + 1)).map fun i =>
        (position logitsOf r i).logits) (InputBatch.makeSamplingMetadata reqs) =
      .ok (reqs.map fun r =>
        padded ((GPUModelRunner.specDecodeMetadata reqs).maxSpecLen + 1) (kept logitsOf r)) := by
  have hbound : (GPUModelRunner.specDecodeMetadata reqs).maxSpecLen ≤ maxSpecLenBound := by
    refine foldl_max_le (Nat.zero_le _) fun k hk => ?_
    obtain ⟨r, hr, rfl⟩ := List.mem_map.1 hk
    exact hspec r hr
  have htargets := targets_valid hwidth hreqs
  unfold forward
  rw [Result.ensure, if_pos hbound, Result.ok_bind, gather_bonus, Result.ok_bind,
    bonus_ok hvocab hwidth hreqs, Result.ok_bind, gather_targets, Result.ok_bind,
    ← map_targets (·.logits), applyLogitsProcessors_ok htargets rfl, Result.ok_bind]
  exact rejectionSample_ok hvocab htargets

theorem nextToken_valid (hvocab : 0 < vocabSize) (hwidth : ∀ h, (logitsOf h).length = vocabSize)
    {r : CachedRequest vocabSize} (hr : r.Valid) {more : List Int}
    (hmore : ∀ token ∈ more, -1 ≤ token ∧ token < vocabSize) :
    0 ≤ nextToken logitsOf r more ∧ nextToken logitsOf r more < vocabSize := by
  refine Position.Valid.next ⟨hr, fun token htoken => ?_, hwidth _⟩ hvocab
  rcases List.mem_append.1 htoken with htoken | htoken
  · have := hr.output token htoken
    omega
  · exact hmore token htoken

theorem kept_valid (hvocab : 0 < vocabSize) (hwidth : ∀ h, (logitsOf h).length = vocabSize)
    {r : CachedRequest vocabSize} (hr : r.Valid) {token : Int} (h : token ∈ kept logitsOf r) :
    0 ≤ token ∧ token < vocabSize := by
  rcases mem_verified h with h | rfl
  · obtain ⟨i, -, rfl⟩ := List.mem_map.1 h
    exact nextToken_valid hvocab hwidth hr fun token htoken =>
      hr.spec token (List.mem_of_mem_take htoken)
  · exact nextToken_valid hvocab hwidth hr hr.spec

theorem parseOutput_padded {len : Nat} {rows : List (List Int)}
    (hrows : ∀ row ∈ rows, ∀ token ∈ row, 0 ≤ token ∧ token < vocabSize) :
    parseOutput vocabSize (rows.map (padded len)) = rows := by
  rw [parseOutput, List.map_map]
  refine (List.map_congr_left fun row hrow => ?_).trans (List.map_id rows)
  rw [Function.comp_apply, padded, List.filter_append]
  have hkeep : row.filter (fun token => token ≠ placeholderTokenId && token < vocabSize) = row := by
    refine List.filter_eq_self.2 fun token htoken => ?_
    have h := hrows row hrow token htoken
    have hne : token ≠ placeholderTokenId := by
      rw [placeholderTokenId]
      omega
    simp [hne, h.2]
  rw [hkeep, List.filter_replicate, if_neg (by simp), List.append_nil]
  rfl

end Forward

end RejectionSampler

namespace GPUModelRunner

open RejectionSampler

variable {reqs : List (CachedRequest vocabSize)} {logitsOf : List Int → Row}

theorem speculativeStep_ok (hvocab : 0 < vocabSize) (hwidth : ∀ h, (logitsOf h).length = vocabSize)
    (hne : reqs ≠ []) (hreqs : ∀ r ∈ reqs, r.Valid)
    (hspec : ∀ r ∈ reqs, r.numDraftTokens ≤ maxSpecLenBound) :
    speculativeStep logitsOf reqs = .ok (reqs.map (kept logitsOf)) := by
  unfold speculativeStep
  dsimp only
  rw [calcSpecDecodeMetadata_ok hne hreqs, Result.ok_bind, gather_histories hreqs, Result.ok_bind,
    List.map_flatMap]
  simp only [List.map_map]
  show RejectionSampler.forward vocabSize (specDecodeMetadata reqs)
    (reqs.flatMap fun r => (List.range (r.numDraftTokens + 1)).map fun i =>
      (position logitsOf r i).logits) (InputBatch.makeSamplingMetadata reqs) >>= _ = _
  have hparse : parseOutput vocabSize ((reqs.map (kept logitsOf)).map
      (padded ((specDecodeMetadata reqs).maxSpecLen + 1))) = reqs.map (kept logitsOf) := by
    refine parseOutput_padded fun row hrow => ?_
    obtain ⟨r, hr, rfl⟩ := List.mem_map.1 hrow
    exact fun token htoken => kept_valid hvocab hwidth (hreqs r hr) htoken
  rw [List.map_map] at hparse
  rw [forward_ok hvocab hwidth hreqs hspec, Result.ok_bind]
  exact congrArg Except.ok hparse

def grown (r : CachedRequest vocabSize) (more : List Int) : CachedRequest vocabSize :=
  { r with outputTokenIds := r.outputTokenIds ++ more, specTokenIds := [] }

def chain (next : List Int → Int) (past : List Int) : Nat → List Int
  | 0 => []
  | n + 1 => next past :: chain next (past ++ [next past]) n

theorem grown_valid {r : CachedRequest vocabSize} (hr : r.Valid) {more : List Int}
    (hmore : ∀ token ∈ more, 0 ≤ token ∧ token < vocabSize) : (grown r more).Valid where
  prompt := hr.prompt
  output := fun token htoken => (List.mem_append.1 htoken).elim (hr.output token) (hmore token)
  spec := nofun
  computed := by
    have := hr.computed
    show r.numComputedTokens < r.promptTokenIds.length + (r.outputTokenIds ++ more).length
    rw [List.length_append]
    omega

theorem greedyStep_ok (hvocab : 0 < vocabSize) (hwidth : ∀ h, (logitsOf h).length = vocabSize)
    (hreqs : ∀ r ∈ reqs, r.Valid) {more : CachedRequest vocabSize → List Int}
    (hmore : ∀ r ∈ reqs, ∀ token ∈ more r, 0 ≤ token ∧ token < vocabSize) :
    greedyStep logitsOf (reqs.map fun r => grown r (more r)) =
      .ok (reqs.map fun r => grown r (more r ++ [nextToken logitsOf r (more r)])) := by
  let xs := reqs.map fun r : CachedRequest vocabSize =>
    ({ request := grown r (more r)
       past := r.outputTokenIds ++ more r
       logits := logitsOf (r.promptTokenIds ++ r.outputTokenIds ++ more r) } : Position vocabSize)
  have hxs : ∀ x ∈ xs, x.Valid := by
    intro x hx
    obtain ⟨r, hr, rfl⟩ := List.mem_map.1 hx
    have hgrown := grown_valid (hreqs r hr) (hmore r hr)
    refine ⟨hgrown, fun token htoken => ?_, hwidth _⟩
    have := hgrown.output token htoken
    omega
  have hpast : ∀ x ∈ xs, Sampler.PastOf false x := by
    intro x hx
    obtain ⟨r, hr, rfl⟩ := List.mem_map.1 hx
    rfl
  have h := Sampler.forward_ok hvocab hxs hpast
  simp only [xs, List.map_map] at h
  have hlogits : (reqs.map fun r => grown r (more r)).map
      (fun r => logitsOf (r.promptTokenIds ++ r.outputTokenIds)) =
      reqs.map fun r => logitsOf (r.promptTokenIds ++ r.outputTokenIds ++ more r) := by
    rw [List.map_map]
    refine List.map_congr_left fun r _ => ?_
    rw [Function.comp_apply, List.append_assoc]
    rfl
  unfold greedyStep
  dsimp only
  rw [hlogits]
  refine (congrArg (· >>= _) h).trans ?_
  rw [Result.ok_bind, List.zipWith_map, List.zipWith_self]
  refine congrArg Except.ok (List.map_congr_left fun r _ => ?_)
  show ({ grown r (more r) with
    outputTokenIds := r.outputTokenIds ++ more r ++ [nextToken logitsOf r (more r)] } :
      CachedRequest vocabSize) = _
  rw [List.append_assoc]
  rfl

theorem greedySteps_ok (hvocab : 0 < vocabSize) (hwidth : ∀ h, (logitsOf h).length = vocabSize)
    (hreqs : ∀ r ∈ reqs, r.Valid) (n : Nat) {more : CachedRequest vocabSize → List Int}
    (hmore : ∀ r ∈ reqs, ∀ token ∈ more r, 0 ≤ token ∧ token < vocabSize) :
    greedySteps logitsOf n (reqs.map fun r => grown r (more r)) =
      .ok (reqs.map fun r => grown r (more r ++ chain (nextToken logitsOf r) (more r) n)) := by
  induction n generalizing more with
  | zero =>
    simp only [chain, List.append_nil]
    rfl
  | succ n ih =>
    have hnext : ∀ r ∈ reqs, ∀ token ∈ more r ++ [nextToken logitsOf r (more r)],
        0 ≤ token ∧ token < vocabSize := by
      intro r hr token htoken
      rcases List.mem_append.1 htoken with htoken | htoken
      · exact hmore r hr token htoken
      · rw [List.mem_singleton.1 htoken]
        refine nextToken_valid hvocab hwidth (hreqs r hr) fun token htoken => ?_
        have := hmore r hr token htoken
        omega
    rw [greedySteps, greedyStep_ok hvocab hwidth hreqs hmore, Result.ok_bind, ih hnext]
    simp only [chain, List.append_assoc, List.singleton_append]

/-- The length of the longest prefix of the drafts that agrees with the tokens. -/
def agreement : List Int → List Int → Nat
  | draft :: drafts, token :: tokens => if draft = token then agreement drafts tokens + 1 else 0
  | _, _ => 0

theorem verified_eq_chain (next : List Int → Int) (drafts past : List Int) :
    let tokens := verified drafts
      ((List.range drafts.length).map fun i => next (past ++ drafts.take i)) (next (past ++ drafts))
    tokens = chain next past tokens.length ∧ tokens.length = agreement drafts tokens + 1 := by
  induction drafts generalizing past with
  | nil =>
    rw [List.append_nil]
    exact ⟨rfl, rfl⟩
  | cons draft drafts ih =>
    have hshift : ∀ l : List Int, past ++ draft :: l = past ++ [draft] ++ l := fun l => by simp
    have htargets : (List.range (draft :: drafts).length).map
        (fun i => next (past ++ (draft :: drafts).take i)) =
        next past :: (List.range drafts.length).map
          fun i => next (past ++ [draft] ++ drafts.take i) := by
      rw [List.length_cons, List.range_succ_eq_map, List.map_cons, List.map_map, List.take_zero,
        List.append_nil]
      refine congrArg (next past :: ·) (List.map_congr_left fun i _ => ?_)
      rw [Function.comp_apply, List.take_succ_cons, hshift]
    obtain ⟨hchain, hlen⟩ := ih (past ++ [draft])
    dsimp only at hchain hlen ⊢
    rw [htargets, hshift drafts, verified]
    split
    · rename_i hsame
      subst hsame
      refine ⟨?_, ?_⟩
      · rw [List.length_cons, chain, ← hchain]
      · rw [List.length_cons, agreement, if_pos rfl, ← hlen]
    · rename_i hdiff
      refine ⟨rfl, ?_⟩
      rw [agreement, if_neg hdiff]
      rfl

/-- Greedy speculative decoding emits what plain greedy decoding emits: the tokens of a step are
those of as many steps without drafts, one more than the drafts that agree with them. -/
theorem speculative_eq_greedy (hvocab : 0 < vocabSize)
    (hwidth : ∀ h, (logitsOf h).length = vocabSize) (hne : reqs ≠ [])
    (hreqs : ∀ r ∈ reqs, r.Valid) (hspec : ∀ r ∈ reqs, r.specTokenIds.length ≤ maxSpecLenBound) :
    ∃ outputs, speculativeStep logitsOf reqs = .ok outputs ∧ outputs.length = reqs.length ∧
      ∀ (i : Nat) r tokens, reqs[i]? = some r → outputs[i]? = some tokens →
        tokens.length = agreement r.specTokenIds tokens + 1 ∧
        ∃ final r', greedySteps logitsOf (agreement r.specTokenIds tokens + 1)
            (reqs.map fun r => { r with specTokenIds := [] }) = .ok final ∧
          final[i]? = some r' ∧ r'.outputTokenIds = r.outputTokenIds ++ tokens := by
  refine ⟨_, speculativeStep_ok hvocab hwidth hne hreqs hspec, List.length_map _, ?_⟩
  intro i r tokens hr htokens
  rw [List.getElem?_map, hr, Option.map_some, Option.some.injEq] at htokens
  subst htokens
  obtain ⟨hchain, hlen⟩ := verified_eq_chain (nextToken logitsOf r) r.specTokenIds []
  simp only [List.nil_append] at hchain hlen
  refine ⟨hlen, ?_⟩
  have hnone : ∀ r ∈ reqs, ∀ token ∈ ([] : List Int), 0 ≤ token ∧ token < vocabSize :=
    fun _ _ => nofun
  have hsteps := greedySteps_ok hvocab hwidth hreqs
    (agreement r.specTokenIds (kept logitsOf r) + 1) hnone
  have hstart : (reqs.map fun r => grown r []) =
      reqs.map fun r => { r with specTokenIds := [] } := by
    refine List.map_congr_left fun r _ => ?_
    rw [grown, List.append_nil]
  rw [hstart] at hsteps
  refine ⟨_, grown r (kept logitsOf r), hsteps, ?_, rfl⟩
  rw [List.getElem?_map, hr, Option.map_some, List.nil_append,
    show agreement r.specTokenIds (kept logitsOf r) + 1 = (kept logitsOf r).length from hlen.symm]
  exact congrArg (fun tokens => some (grown r tokens)) hchain.symm

def neutral (vocabSize : Nat) : SamplingParams vocabSize where
  repetitionPenalty_pos := one_pos
  badWords_ne_nil := fun _ h => absurd h List.not_mem_nil
  badWords_valid := fun _ h => absurd h List.not_mem_nil

theorem speculative_eq_greedy_twoRequests :
    let reqs : List (CachedRequest 2) :=
      [⟨[0], [], [1, 0], 0, neutral 2⟩, ⟨[0, 1], [1], [], 2, neutral 2⟩]
    ∃ outputs, speculativeStep (fun _ => [⊥, ((1 : ℚ) : Logit)]) reqs = .ok outputs ∧ outputs.length = 2 ∧
      ∀ (i : Nat) r tokens, reqs[i]? = some r → outputs[i]? = some tokens →
        tokens.length = agreement r.specTokenIds tokens + 1 ∧
        ∃ final r', greedySteps (fun _ => [⊥, ((1 : ℚ) : Logit)]) (agreement r.specTokenIds tokens + 1)
            (reqs.map fun r => { r with specTokenIds := [] }) = .ok final ∧
          final[i]? = some r' ∧ r'.outputTokenIds = r.outputTokenIds ++ tokens := by
  intro reqs
  have hvalid : ∀ r ∈ reqs, r.Valid := by
    intro r hr
    rcases List.mem_pair.1 hr with rfl | rfl
    · exact ⟨by decide, by decide, by decide, by decide⟩
    · exact ⟨by decide, by decide, by decide, by decide⟩
  exact speculative_eq_greedy Nat.two_pos (fun _ => rfl) (List.cons_ne_nil _ _) hvalid (by decide)

end GPUModelRunner

end Vllm.Sample
