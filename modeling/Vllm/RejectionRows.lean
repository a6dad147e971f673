import Vllm.RejectionLaws

namespace Vllm.Sample

open Segments

variable {vocabSize : Nat}

namespace RejectionSampler

variable {reqs : List (CachedRequest vocabSize)} {logitsOf : List Int → Row}

def position (logitsOf : List Int → Row) (r : CachedRequest vocabSize) (i : Nat) :
    Position vocabSize where
  request := r
  past := r.outputTokenIds ++ r.specTokenIds.take i
  logits := logitsOf (r.promptTokenIds ++ r.outputTokenIds ++ r.specTokenIds.take i)

def targets (logitsOf : List Int → Row) (reqs : List (CachedRequest vocabSize)) :
    List (Position vocabSize) :=
  reqs.flatMap fun r => (List.range r.numDraftTokens).map (position logitsOf r)

theorem mem_targets {x : Position vocabSize} : x ∈ targets logitsOf reqs ↔
    ∃ r ∈ reqs, ∃ i < r.numDraftTokens, x = position logitsOf r i := by
  simp only [targets, List.mem_flatMap, List.mem_map, List.mem_range]
  exact exists_congr fun r => and_congr_right fun _ => exists_congr fun i =>
    and_congr_right fun _ => eq_comm

theorem position_valid (hwidth : ∀ h, (logitsOf h).length = vocabSize)
    {r : CachedRequest vocabSize} (hr : r.Valid) (i : Nat) : (position logitsOf r i).Valid where
  request := hr
  past := by
    intro token htoken
    rcases List.mem_append.1 htoken with htoken | htoken
    · have := hr.output token htoken
      omega
    · exact hr.spec token (List.mem_of_mem_take htoken)
  logits := hwidth _

theorem targets_valid (hwidth : ∀ h, (logitsOf h).length = vocabSize)
    (hreqs : ∀ r ∈ reqs, r.Valid) : ∀ x ∈ targets logitsOf reqs, x.Valid := by
  intro x hx
  obtain ⟨r, hr, i, -, rfl⟩ := mem_targets.1 hx
  exact position_valid hwidth (hreqs r hr) i

theorem map_targets {β : Type} (f : Position vocabSize → β) :
    (targets logitsOf reqs).map f =
      reqs.flatMap fun r => (List.range r.numDraftTokens).map fun i => f (position logitsOf r i) := by
  rw [targets, List.map_flatMap]
  simp only [List.map_map]
  rfl

section Gather

theorem offsets_one (start : Nat) (l : List (CachedRequest vocabSize)) :
    (offsets (fun _ => 1) start l).map Prod.snd = List.range' start l.length := by
  induction l generalizing start with
  | nil => rfl
  | cons r l ih => exact congrArg (start :: ·) (ih (start + 1))

theorem flatMap_range_one {α β : Type} (l : List α) (f : α → Nat → β) :
    (l.flatMap fun a => (List.range 1).map (f a)) = l.map (f · 0) :=
  (List.map_eq_flatMap ..).symm

theorem gather_repeat {β : Type} (logitsOf : List Int → Row) (f : CachedRequest vocabSize → β) :
    gather (reqs.map f) (repeatEach (List.range (reqs.map (·.numDraftTokens)).length)
      (reqs.map (·.numDraftTokens))) =
      .ok ((targets logitsOf reqs).map fun x => f x.request) := by
  have hindices : repeatEach (List.range (reqs.map (·.numDraftTokens)).length)
      (reqs.map (·.numDraftTokens)) =
      (offsets (fun _ => 1) 0 reqs).flatMap fun p =>
        (List.range p.1.numDraftTokens).map fun _ => p.2 + 0 := by
    rw [List.length_map, List.range_eq_range', ← offsets_one,
      map_eq_map_offsets (fun _ => 1) 0 reqs (·.numDraftTokens), repeatEach_map]
    refine List.flatMap_congr fun p _ => ?_
    rw [List.map_const', List.length_range]
    rfl
  rw [hindices, ← flatMap_range_one reqs fun r _ => f r,
    gather_segments (fun _ => 1) (fun r _ => f r) (·.numDraftTokens) (fun _ _ => 0)
      fun _ _ _ _ => Nat.one_pos, map_targets]
  rfl

theorem gather_bonus {β : Type} (g : CachedRequest vocabSize → Nat → β) :
    gather (reqs.flatMap fun r => (List.range (r.numDraftTokens + 1)).map (g r))
      (GPUModelRunner.specDecodeMetadata reqs).bonusLogitsIndices =
      .ok (reqs.map fun r => g r r.numDraftTokens) := by
  have hindices : (GPUModelRunner.specDecodeMetadata reqs).bonusLogitsIndices =
      (offsets (fun r => r.numDraftTokens + 1) 0 reqs).flatMap fun p =>
        (List.range 1).map fun _ => p.2 + p.1.numDraftTokens :=
    (flatMap_range_one (offsets (fun r => r.numDraftTokens + 1) 0 reqs)
      fun p _ => p.2 + p.1.numDraftTokens).symm
  rw [hindices, gather_segments (fun r : CachedRequest vocabSize => r.numDraftTokens + 1) g
    (fun _ => 1) (fun r _ => r.numDraftTokens) fun r _ _ _ => Nat.lt_succ_self _]
  exact congrArg Except.ok (flatMap_range_one ..)

theorem gather_targets {β : Type} (g : CachedRequest vocabSize → Nat → β) :
    gather (reqs.flatMap fun r => (List.range (r.numDraftTokens + 1)).map (g r))
      (GPUModelRunner.specDecodeMetadata reqs).targetLogitsIndices =
      .ok (reqs.flatMap fun r => (List.range r.numDraftTokens).map (g r)) :=
  gather_segments (fun r : CachedRequest vocabSize => r.numDraftTokens + 1) g
    (fun r => r.numDraftTokens) (fun _ i => i) fun _ _ _ hi => Nat.lt_succ_of_lt hi

theorem gather_histories (hreqs : ∀ r ∈ reqs, r.Valid) :
    gather (reqs.flatMap (·.histories)) (GPUModelRunner.specDecodeMetadata reqs).logitsIndices =
      .ok (reqs.flatMap fun r => (List.range (r.numDraftTokens + 1)).map fun i =>
        r.promptTokenIds ++ r.outputTokenIds ++ r.specTokenIds.take i) := by
  have hread := gather_segments (l := reqs) CachedRequest.numScheduledTokens
    (fun r j => r.allTokenIds.take (r.numComputedTokens + j + 1)) (fun r => r.numDraftTokens + 1)
    (fun r i => r.firstSampled + i) fun r hr i hi => by
      have hlt := (hreqs r hr).numDraftTokens_lt
      rw [CachedRequest.firstSampled]
      omega
  refine hread.trans (congrArg Except.ok (List.flatMap_congr fun r hr => ?_))
  exact List.map_congr_left fun i _ => (hreqs r hr).take_allTokenIds i

end Gather

theorem extendOutputs_eq (out spec : List Int) :
    extendOutputs out spec = (List.range spec.length).map fun i => out ++ spec.take i := by
  induction spec generalizing out with
  | nil => rfl
  | cons token spec ih =>
    rw [extendOutputs, ih, List.length_cons, List.range_succ_eq_map, List.map_cons, List.map_map,
      List.take_zero, List.append_nil]
    refine congrArg (out :: ·) (List.map_congr_left fun i _ => ?_)
    rw [Function.comp_apply, List.take_succ_cons, List.append_assoc, List.singleton_append]

theorem processorTokenIds_ok
    (hany : (InputBatch.makeSamplingMetadata reqs).anyPenaltiesOrBadWords = true) :
    processorTokenIds (InputBatch.makeSamplingMetadata reqs) =
      (targets logitsOf reqs).map (·.past) := by
  rw [processorTokenIds, hany, outputTokenIds_of_any hany, if_pos rfl, map_targets]
  show combineOutputsWithSpecTokens _ (some _) = _
  rw [combineOutputsWithSpecTokens, List.zipWith_map, List.zipWith_self, ← List.flatMap_def]
  exact List.flatMap_congr fun r _ => extendOutputs_eq _ _

section BadWords

variable {f : Position vocabSize → Row}

theorem applyBadWordsRows_ok {r : CachedRequest vocabSize} {xs : List (Position vocabSize)}
    (hxs : ∀ x ∈ xs, x.request = r ∧ (f x).length = vocabSize) {done : List Row}
    {pastDone : List (List Int)} (rest : List Row) (pastRest : List (List Int)) (hpast : pastDone.length = done.length) :
    applyBadWordsRows r.samplingParams.badWordsTokenIds
      (pastDone ++ (xs.map (·.past) ++ pastRest)) done.length xs.length
      (done ++ (xs.map f ++ rest)) =
      .ok (done ++ (xs.map (fun x => x.banned (f x)) ++ rest)) := by
  unfold applyBadWordsRows
  induction xs generalizing done pastDone with
  | nil => rfl
  | cons x xs ih =>
    obtain ⟨⟨rfl, hlen⟩, hxs⟩ := List.forall_mem_cons.1 hxs
    have hone : applyBadWordsSingleBatch (done ++ (f x :: (xs.map f ++ rest))) done.length
        x.request.samplingParams.badWordsTokenIds
        (pastDone ++ (x.past :: (xs.map (·.past) ++ pastRest))) =
        .ok (done ++ [x.banned (f x)] ++ (xs.map f ++ rest)) := by
      rw [applyBadWordsSingleBatch_ok (x := x) (by rw [← hpast]; simp) (by simp) hlen]
      simp
    have hnext : (done ++ [x.banned (f x)]).length = done.length + 1 := by simp
    have hrest := ih hxs
      (show (pastDone ++ [x.past]).length = (done ++ [x.banned (f x)]).length by simp [hpast])
    rw [List.length_cons, List.range_succ_eq_map, List.foldlM_cons, Nat.add_zero, List.map_cons,
      List.map_cons, List.map_cons, List.cons_append, List.cons_append, List.cons_append, hone,
      Result.ok_bind, List.foldlM_map]
    rw [hnext] at hrest
    simp only [Nat.add_assoc, Nat.add_comm 1, List.append_assoc, List.singleton_append] at hrest ⊢
    exact hrest

def hasWords (r : CachedRequest vocabSize) : Bool := r.samplingParams.badWordsTokenIds ≠ []

def Indexed (badWords : Dict Nat (List (List Int))) (i : Nat)
    (reqs : List (CachedRequest vocabSize)) : Prop :=
  ∀ (j : Nat) r, reqs[j]? = some r → badWords.get? (i + j) =
    if hasWords r then some r.samplingParams.badWordsTokenIds else none

theorem Indexed.tail {badWords : Dict Nat (List (List Int))} {i : Nat} {r : CachedRequest vocabSize}
    (h : Indexed badWords i (r :: reqs)) : Indexed badWords (i + 1) reqs := by
  intro j r' hj
  rw [Nat.add_assoc, Nat.add_comm 1]
  exact h (j + 1) r' hj

theorem map_banned_of_hasWords (h : ∀ r ∈ reqs, hasWords r = false) :
    (targets logitsOf reqs).map (fun x => x.banned (f x)) = (targets logitsOf reqs).map f := by
  refine List.map_congr_left fun x hx => Position.banned_of_nil ?_ _
  obtain ⟨r, hr, i, -, rfl⟩ := mem_targets.1 hx
  simpa [hasWords, position] using h r hr

theorem applyBadWordsFrom_ok (hf : ∀ x, x ∈ targets logitsOf reqs → (f x).length = vocabSize)
    {badWords : Dict Nat (List (List Int))} {i : Nat} (hindexed : Indexed badWords i reqs)
    {done : List Row} {pastDone : List (List Int)} (hpast : pastDone.length = done.length) :
    applyBadWordsFrom badWords (pastDone ++ (targets logitsOf reqs).map (·.past)) i done.length
      (reqs.countP hasWords) (done ++ (targets logitsOf reqs).map f) (reqs.map (·.numDraftTokens)) =
      .ok (done ++ (targets logitsOf reqs).map fun x => x.banned (f x)) := by
  induction reqs generalizing i done pastDone with
  | nil => rfl
  | cons r reqs ih =>
    have hcons : targets logitsOf (r :: reqs) =
        (List.range r.numDraftTokens).map (position logitsOf r) ++ targets logitsOf reqs :=
      List.flatMap_cons
    rw [hcons] at hf ⊢
    generalize hxs : (List.range r.numDraftTokens).map (position logitsOf r) = xs at hf ⊢
    have hlen : xs.length = r.numDraftTokens := by rw [← hxs, List.length_map, List.length_range]
    have hown : ∀ x ∈ xs, x.request = r ∧ (f x).length = vocabSize := by
      intro x hx
      refine ⟨?_, hf x (List.mem_append_left _ hx)⟩
      rw [← hxs] at hx
      obtain ⟨i, -, rfl⟩ := List.mem_map.1 hx
      rfl
    have hrest : ∀ g : Position vocabSize → Row,
        applyBadWordsFrom badWords
          (pastDone ++ (xs ++ targets logitsOf reqs).map (·.past)) (i + 1)
          (done.length + r.numDraftTokens) (reqs.countP hasWords)
          (done ++ (xs.map g ++ (targets logitsOf reqs).map f)) (reqs.map (·.numDraftTokens)) =
        .ok (done ++ (xs.map g ++ (targets logitsOf reqs).map fun x => x.banned (f x))) := by
      intro g
      have h := ih (fun x hx => hf x (List.mem_append_right _ hx)) hindexed.tail
        (show (pastDone ++ xs.map (·.past)).length = (done ++ xs.map g).length by simp [hpast])
      rw [List.length_append, List.length_map, hlen] at h
      simpa only [List.map_append, List.append_assoc] using h
    have hword := hindexed 0 r rfl
    rw [Nat.add_zero] at hword
    rw [List.map_cons, List.map_append, List.map_append, List.map_append,
      applyBadWordsFrom.eq_def]
    dsimp only
    rw [hword, List.countP_cons]
    cases hwords : hasWords r with
    | false =>
      have hsame : xs.map (fun x => x.banned (f x)) = xs.map f := by
        refine List.map_congr_left fun x hx => Position.banned_of_nil ?_ _
        rw [(hown x hx).1]
        simpa [hasWords] using hwords
      rw [hsame]
      have h := hrest f
      rw [List.map_append] at h
      exact h
    | true =>
      simp only [if_true]
      have hbatch := applyBadWordsRows_ok hown ((targets logitsOf reqs).map f)
        ((targets logitsOf reqs).map (·.past)) hpast
      rw [hlen] at hbatch
      rw [hbatch, Result.ok_bind]
      split
      · rename_i hzero
        have hnone : ∀ r ∈ reqs, hasWords r = false := by
          have hcount : reqs.countP hasWords = 0 := by omega
          intro r' hr'
          simpa using List.countP_eq_zero.1 hcount r' hr'
        rw [map_banned_of_hasWords hnone]
        rfl
      · have h := hrest fun x => x.banned (f x)
        rw [List.map_append] at h
        exact h

theorem indexed_badWordsTokenIds (reqs : List (CachedRequest vocabSize)) :
    Indexed (InputBatch.badWordsTokenIds reqs) 0 reqs := by
  intro j r hr
  rw [Nat.zero_add]
  split
  · rename_i hwords
    exact Dict.get?_eq_some.2 (mem_badWordsTokenIds.2 ⟨r, hr, rfl, by simpa [hasWords] using hwords⟩)
  · rename_i hwords
    cases hget : (InputBatch.badWordsTokenIds reqs).get? j with
    | none => rfl
    | some words =>
      obtain ⟨r', hr', rfl, hne⟩ := mem_badWordsTokenIds.1 (Dict.get?_eq_some.1 hget)
      obtain rfl : r = r' := Option.some.inj (hr.symm.trans hr')
      exact absurd hne (by simpa [hasWords] using hwords)

theorem size_badWordsTokenIds (reqs : List (CachedRequest vocabSize)) :
    (InputBatch.badWordsTokenIds reqs).size = reqs.countP hasWords := by
  have hsnd : (reqs.mapIdx fun i r => (i, r.samplingParams.badWordsTokenIds)).map Prod.snd =
      reqs.map (·.samplingParams.badWordsTokenIds) := by
    refine List.ext_getElem? fun i => ?_
    rw [List.getElem?_map, List.getElem?_mapIdx, List.getElem?_map, Option.map_map]
    rfl
  have hcount := List.countP_map (p := fun words : List (List Int) => decide (words ≠ []))
    (f := Prod.snd) (l := reqs.mapIdx fun i r => (i, r.samplingParams.badWordsTokenIds))
  rw [hsnd, List.countP_map] at hcount
  rw [Dict.size, InputBatch.badWordsTokenIds, ← List.countP_eq_length_filter]
  exact hcount.symm

theorem applyBadWordsWithDrafts_ok
    (hf : ∀ x, x ∈ targets logitsOf reqs → (f x).length = vocabSize) :
    applyBadWordsWithDrafts ((targets logitsOf reqs).map f) (InputBatch.badWordsTokenIds reqs)
      ((targets logitsOf reqs).map (·.past)) (reqs.map (·.numDraftTokens)) =
      .ok ((targets logitsOf reqs).map fun x => x.banned (f x)) := by
  rw [applyBadWordsWithDrafts, size_badWordsTokenIds]
  exact applyBadWordsFrom_ok hf (indexed_badWordsTokenIds reqs)
    (show ([] : List (List Int)).length = ([] : List Row).length from rfl)

end BadWords

section Processors

theorem targets_request : ∀ x ∈ targets logitsOf reqs, x.request ∈ reqs := by
  intro x hx
  obtain ⟨r, hr, i, -, rfl⟩ := mem_targets.1 hx
  exact hr

theorem applyPenalties_ok (hxs : ∀ x ∈ targets logitsOf reqs, x.Valid)
    {history : List (List Int)} (hhistory : InputBatch.noPenalties reqs = false →
      history = (targets logitsOf reqs).map (·.past)) :
    applyPenalties vocabSize (InputBatch.makeSamplingMetadata reqs)
      (repeatEach (List.range (reqs.map (·.numDraftTokens)).length) (reqs.map (·.numDraftTokens)))
      history ((targets logitsOf reqs).map (·.logits)) =
      .ok ((targets logitsOf reqs).map fun x => x.penalized x.logits) := by
  unfold applyPenalties
  split
  · rename_i hno
    rw [penalized_of_noPenalties hno targets_request]
  · rename_i hno
    have hprompt : (InputBatch.makeSamplingMetadata reqs).promptTokenIds =
        some (InputBatch.makePromptTokenIdsTensor reqs) := if_neg hno
    obtain ⟨promptLen, hpad⟩ := exists_padTo (reqs.map (·.promptTokenIds)) vocabSize
    rw [hprompt, InputBatch.makePromptTokenIdsTensor, hpad, List.map_map,
      hhistory (Bool.eq_false_of_not_eq_true hno)]
    dsimp only [InputBatch.makeSamplingMetadata]
    rw [gather_repeat logitsOf, Result.ok_bind, gather_repeat logitsOf,
      Result.ok_bind, gather_repeat logitsOf, Result.ok_bind,
      gather_repeat logitsOf, Result.ok_bind]
    exact applyAllPenalties_make hxs (fun x hx => (hxs x hx).logits) promptLen

theorem applyPenaltiesAndMask_ok (hxs : ∀ x ∈ targets logitsOf reqs, x.Valid)
    {history : List (List Int)} (hhistory : InputBatch.noPenalties reqs = false →
      history = (targets logitsOf reqs).map (·.past)) :
    applyPenaltiesAndMask vocabSize (InputBatch.makeSamplingMetadata reqs)
      (repeatEach (List.range (reqs.map (·.numDraftTokens)).length) (reqs.map (·.numDraftTokens)))
      history ((targets logitsOf reqs).map (·.logits)) =
      .ok ((targets logitsOf reqs).map fun x => x.maskedRow (x.penalized x.logits)) := by
  have hlen : ∀ x ∈ targets logitsOf reqs, (x.penalized x.logits).length = vocabSize :=
    fun x hx => (x.length_penalized _).trans (hxs x hx).logits
  unfold applyPenaltiesAndMask
  rw [applyPenalties_ok hxs hhistory, Result.ok_bind]
  dsimp only [InputBatch.makeSamplingMetadata]
  split
  · rename_i hmask
    rw [ite_eq_left_iff] at hmask
    have hall := not_imp_comm.1 hmask nofun
    refine congrArg Except.ok (List.map_congr_left fun x hx =>
      (Position.maskedRow_of_nil ?_ _).symm)
    exact List.isEmpty_iff.1 (List.all_eq_true.1 hall _ (targets_request x hx))
  · rename_i mask hmask
    split at hmask
    · cases hmask
    · cases hmask
      rw [gather_repeat logitsOf, Result.ok_bind]
      exact congrArg Except.ok (maskedFill_ok hlen)

theorem applyLogitsProcessors_ok (hxs : ∀ x ∈ targets logitsOf reqs, x.Valid)
    {metadata : SpecDecodeMetadata} (hnum : metadata.numDraftTokens = reqs.map (·.numDraftTokens)) :
    applyLogitsProcessors vocabSize (InputBatch.makeSamplingMetadata reqs) metadata
      ((targets logitsOf reqs).map (·.logits)) = .ok ((targets logitsOf reqs).map (·.processed)) := by
  have hlen : ∀ x ∈ targets logitsOf reqs,
      (x.maskedRow (x.penalized x.logits)).length = vocabSize := fun x hx =>
    (x.length_maskedRow _).trans ((x.length_penalized _).trans (hxs x hx).logits)
  have hprocessed : (targets logitsOf reqs).map (·.processed) =
      (targets logitsOf reqs).map fun x => x.banned (x.maskedRow (x.penalized x.logits)) :=
    List.map_congr_left fun x _ => x.processed_eq'.symm
  have hhistory : (InputBatch.makeSamplingMetadata reqs).anyPenaltiesOrBadWords = true →
      processorTokenIds (InputBatch.makeSamplingMetadata reqs) =
        (targets logitsOf reqs).map (·.past) := processorTokenIds_ok
  unfold applyLogitsProcessors
  dsimp only
  generalize processorTokenIds (InputBatch.makeSamplingMetadata reqs) = history at hhistory
  have hmasked : (if (InputBatch.makeSamplingMetadata reqs).allowedTokenIdsMask.isSome ||
        !(InputBatch.makeSamplingMetadata reqs).noPenalties then
      applyPenaltiesAndMask vocabSize (InputBatch.makeSamplingMetadata reqs)
        (repeatEach (List.range metadata.numDraftTokens.length) metadata.numDraftTokens) history
        ((targets logitsOf reqs).map (·.logits))
      else .ok ((targets logitsOf reqs).map (·.logits))) =
      .ok ((targets logitsOf reqs).map fun x => x.maskedRow (x.penalized x.logits)) := by
    have hboth := applyPenaltiesAndMask_ok hxs fun hno => hhistory (by
      rw [SamplingMetadata.anyPenaltiesOrBadWords,
        show (InputBatch.makeSamplingMetadata reqs).noPenalties = false from hno]
      exact Bool.or_true _)
    rw [hnum]
    split
    · exact hboth
    · rename_i hneither
      rw [Bool.or_eq_true, not_or, Bool.not_eq_true, Bool.not_eq_true, Bool.not_eq_false',
        Option.isSome_eq_false_iff, Option.isNone_iff_eq_none] at hneither
      obtain ⟨hmask, hno⟩ := hneither
      rw [← hboth, applyPenaltiesAndMask, applyPenalties, if_pos hno, Result.ok_bind, hmask]
  have hbanned : (if (InputBatch.makeSamplingMetadata reqs).hasBadWords then
      applyBadWordsWithDrafts ((targets logitsOf reqs).map fun x => x.maskedRow (x.penalized x.logits))
        (InputBatch.makeSamplingMetadata reqs).badWordsTokenIds history metadata.numDraftTokens
      else .ok ((targets logitsOf reqs).map fun x => x.maskedRow (x.penalized x.logits))) =
      .ok ((targets logitsOf reqs).map (·.processed)) := by
    rw [hprocessed, hnum]
    split
    · rename_i hbad
      rw [hhistory (by rw [SamplingMetadata.anyPenaltiesOrBadWords, hbad]; rfl)]
      exact applyBadWordsWithDrafts_ok hlen
    · rename_i hbad
      rw [map_banned_of_hasWords fun r hr => ?_]
      have hnone := hasBadWords_iff.1 (Bool.not_eq_true _ ▸ hbad) r hr
      simpa [hasWords] using hnone
  split
  · rename_i hcond
    rw [if_pos hcond] at hmasked
    rw [hmasked]
    exact hbanned
  · rename_i hcond
    rw [if_neg hcond, Except.ok.injEq] at hmasked
    rw [hmasked]
    exact hbanned

end Processors

end RejectionSampler

end Vllm.Sample
