import Vllm.Lib.Segments
import Vllm.Sampler

/-! Speculative decoding of greedy requests: the drafts of all requests are checked in one batch of
logits, and each request keeps the target tokens up to its first rejected draft. -/

namespace Vllm.Sample

open Segments

def gather {α : Type} (xs : List α) (indices : List Nat) : Result (List α) :=
  indices.mapM (Result.getItem xs)

structure SpecDecodeMetadata where
  draftTokenIds : List Int
  numDraftTokens : List Nat
  cuNumDraftTokens : List Nat
  cuNumSampledTokens : List Nat
  targetLogitsIndices : List Nat
  bonusLogitsIndices : List Nat
  logitsIndices : List Nat

def SpecDecodeMetadata.maxSpecLen (m : SpecDecodeMetadata) : Nat := m.numDraftTokens.foldl max 0

namespace GPUModelRunner

def getCumsumAndArange (numTokens : List Nat) : Result (List Nat × List Nat) := do
  let cuNumTokens := cumsum 0 numTokens
  match cuNumTokens.getLast? with
  | none => .error .indexError
  | some totalNumTokens =>
    let cumsumsOffsets := repeatEach (List.zipWith (· - ·) cuNumTokens numTokens) numTokens
    return (cuNumTokens, List.zipWith (· - ·) (List.range totalNumTokens) cumsumsOffsets)

def calcSpecDecodeMetadata (numDraftTokens cuNumScheduledTokens : List Nat) (inputIds : List Int) :
    Result SpecDecodeMetadata := do
  let numSampledTokens := numDraftTokens.map (· + 1)
  let (cuNumSampledTokens, arange) ← getCumsumAndArange numSampledTokens
  let logitsIndices := List.zipWith (· + ·)
    (repeatEach (List.zipWith (· - ·) cuNumScheduledTokens numSampledTokens) numSampledTokens) arange
  let bonusLogitsIndices := cuNumSampledTokens.map (· - 1)
  let (cuNumDraftTokens, arange) ← getCumsumAndArange numDraftTokens
  let targetLogitsIndices := List.zipWith (· + ·)
    (repeatEach (List.zipWith (· - ·) cuNumSampledTokens numSampledTokens) numDraftTokens) arange
  let draftTokenIds ← gather inputIds logitsIndices
  let draftTokenIds ← gather draftTokenIds (targetLogitsIndices.map (· + 1))
  return { draftTokenIds, numDraftTokens, cuNumDraftTokens, cuNumSampledTokens, targetLogitsIndices
           bonusLogitsIndices, logitsIndices }

end GPUModelRunner

def applyBadWordsRows (badWordsIds : List (List Int)) (pastTokensIds : List (List Int))
    (startIdx n : Nat) (logits : List Row) : Result (List Row) :=
  (List.range n).foldlM
    (fun logits i => applyBadWordsSingleBatch logits (startIdx + i) badWordsIds pastTokensIds) logits

/-- The loop of `apply_bad_words_with_drafts`, from request `i` on. -/
def applyBadWordsFrom (badWordsTokenIds : Dict Nat (List (List Int)))
    (pastTokensIds : List (List Int)) (i startIdx remaining : Nat) (logits : List Row) :
    List Nat → Result (List Row)
  | [] => .ok logits
  | n :: numDraftTokens =>
    match badWordsTokenIds.get? i with
    | none =>
      applyBadWordsFrom badWordsTokenIds pastTokensIds (i + 1) (startIdx + n) remaining logits
        numDraftTokens
    | some badWordsIds => do
      let logits ← applyBadWordsRows badWordsIds pastTokensIds startIdx n logits
      if remaining - 1 = 0 then return logits
      applyBadWordsFrom badWordsTokenIds pastTokensIds (i + 1) (startIdx + n) (remaining - 1) logits
        numDraftTokens

def applyBadWordsWithDrafts (logits : List Row) (badWordsTokenIds : Dict Nat (List (List Int)))
    (pastTokensIds : List (List Int)) (numDraftTokens : List Nat) : Result (List Row) :=
  applyBadWordsFrom badWordsTokenIds pastTokensIds 0 0 badWordsTokenIds.size logits numDraftTokens

namespace RejectionSampler

def placeholderTokenId : Int := -1

def maxSpecLenBound : Nat := 128

def extendOutputs (out : List Int) : List Int → List (List Int)
  | [] => []
  | token :: spec => out :: extendOutputs (out ++ [token]) spec

def combineOutputsWithSpecTokens (outputTokenIds : List (List Int))
    (specTokenIds : Option (List (List Int))) : List (List Int) :=
  match specTokenIds with
  | none => outputTokenIds
  | some spec => (List.zipWith extendOutputs outputTokenIds spec).flatten

def processorTokenIds (m : SamplingMetadata) : List (List Int) :=
  if m.anyPenaltiesOrBadWords then combineOutputsWithSpecTokens m.outputTokenIds m.specTokenIds
  else m.outputTokenIds

def applyPenalties (vocabSize : Nat) (m : SamplingMetadata) (repeatIndices : List Nat)
    (outputTokenIds : List (List Int)) (logits : List Row) : Result (List Row) :=
  if m.noPenalties then .ok logits
  else
    match m.promptTokenIds with
    | none => .error (.assertionError "prompt_token_ids is not None")
    | some promptTokenIds => do
      let promptTokenIds ← gather promptTokenIds repeatIndices
      let presencePenalties ← gather m.presencePenalties repeatIndices
      let frequencyPenalties ← gather m.frequencyPenalties repeatIndices
      let repetitionPenalties ← gather m.repetitionPenalties repeatIndices
      applyAllPenalties vocabSize logits promptTokenIds presencePenalties frequencyPenalties
        repetitionPenalties outputTokenIds

/-- The penalties and the allowed tokens, for the rows of the requests `repeatIndices`. -/
def applyPenaltiesAndMask (vocabSize : Nat) (m : SamplingMetadata) (repeatIndices : List Nat)
    (outputTokenIds : List (List Int)) (logits : List Row) : Result (List Row) := do
  let logits ← applyPenalties vocabSize m repeatIndices outputTokenIds logits
  match m.allowedTokenIdsMask with
  | none => .ok logits
  | some mask => return maskedFill logits (← gather mask repeatIndices)

def applyLogitsProcessors (vocabSize : Nat) (m : SamplingMetadata) (metadata : SpecDecodeMetadata)
    (logits : List Row) : Result (List Row) := do
  let outputTokenIds := processorTokenIds m
  let logits ←
    if m.allowedTokenIdsMask.isSome || !m.noPenalties then
      applyPenaltiesAndMask vocabSize m
        (repeatEach (List.range metadata.numDraftTokens.length) metadata.numDraftTokens)
        outputTokenIds logits
    else .ok logits
  if m.hasBadWords then
    applyBadWordsWithDrafts logits m.badWordsTokenIds outputTokenIds metadata.numDraftTokens
  else .ok logits

def store (row : List Int) (pos : Nat) (token : Int) : Result (List Int) :=
  if pos < row.length then .ok (row.set pos token) else .error .indexError

def checkDraft (draftTokenIds targetArgmax : List Int) (startIdx : Nat) (st : List Int × Bool)
    (pos : Nat) : Result (List Int × Bool) :=
  if st.2 then .ok st
  else do
    let draftTokenId ← Result.getItem draftTokenIds (startIdx + pos)
    let targetArgmaxId ← Result.getItem targetArgmax (startIdx + pos)
    let row ← store st.1 pos targetArgmaxId
    return (row, draftTokenId ≠ targetArgmaxId)

def startIndex (cuNumDraftTokens : List Nat) (reqIdx : Nat) : Result Nat :=
  if reqIdx = 0 then .ok 0 else Result.getItem cuNumDraftTokens (reqIdx - 1)

def rejectionGreedySampleKernel (cuNumDraftTokens : List Nat)
    (draftTokenIds targetArgmax bonusTokenIds : List Int) (reqIdx : Nat) (row : List Int) :
    Result (List Int) := do
  let startIdx ← startIndex cuNumDraftTokens reqIdx
  let endIdx ← Result.getItem cuNumDraftTokens reqIdx
  let numDraftTokens := endIdx - startIdx
  let st ← (List.range numDraftTokens).foldlM (checkDraft draftTokenIds targetArgmax startIdx)
    (row, false)
  if st.2 then .ok st.1
  else store st.1 numDraftTokens (← Result.getItem bonusTokenIds reqIdx)

def rejectionSample (metadata : SpecDecodeMetadata) (targetLogits : List Row)
    (bonusTokenIds : List Int) : Result (List (List Int)) := do
  Result.ensure (targetLogits.length = metadata.draftTokenIds.length)
    "target_logits.shape == (num_tokens, vocab_size)"
  let targetArgmax ← Sampler.greedySample targetLogits
  (List.range metadata.numDraftTokens.length).mapM fun reqIdx =>
    rejectionGreedySampleKernel metadata.cuNumDraftTokens metadata.draftTokenIds targetArgmax
      bonusTokenIds reqIdx (List.replicate (metadata.maxSpecLen + 1) placeholderTokenId)

def forward (vocabSize : Nat) (metadata : SpecDecodeMetadata) (logits : List Row)
    (m : SamplingMetadata) : Result (List (List Int)) := do
  Result.ensure (metadata.maxSpecLen ≤ maxSpecLenBound) "metadata.max_spec_len <= MAX_SPEC_LEN"
  let bonusLogits ← gather logits metadata.bonusLogitsIndices
  let bonusTokenIds ← Sampler.forward vocabSize bonusLogits m true
  let targetLogits ← gather logits metadata.targetLogitsIndices
  let targetLogits ← applyLogitsProcessors vocabSize m metadata targetLogits
  rejectionSample metadata targetLogits bonusTokenIds

def parseOutput (vocabSize : Nat) (outputTokenIds : List (List Int)) : List (List Int) :=
  outputTokenIds.map (·.filter fun token => token ≠ placeholderTokenId && token < vocabSize)

end RejectionSampler

namespace CachedRequest

variable {vocabSize : Nat}

def allTokenIds (r : CachedRequest vocabSize) : List Int :=
  r.promptTokenIds ++ r.outputTokenIds ++ r.specTokenIds

def numScheduledTokens (r : CachedRequest vocabSize) : Nat :=
  r.allTokenIds.length - r.numComputedTokens

def histories (r : CachedRequest vocabSize) : List (List Int) :=
  (List.range r.numScheduledTokens).map fun j => r.allTokenIds.take (r.numComputedTokens + j + 1)

end CachedRequest

namespace GPUModelRunner

variable {vocabSize : Nat}

/-- A step with drafts: the logits are taken from the scheduled positions, and what the rejection
sampler returns is parsed. -/
def speculativeStep (logitsOf : List Int → Row) (reqs : List (CachedRequest vocabSize)) :
    Result (List (List Int)) := do
  let inputIds := reqs.flatMap fun r => r.allTokenIds.drop r.numComputedTokens
  let metadata ← calcSpecDecodeMetadata (reqs.map (·.specTokenIds.length))
    (cumsum 0 (reqs.map (·.numScheduledTokens))) inputIds
  let histories ← gather (reqs.flatMap (·.histories)) metadata.logitsIndices
  let output ← RejectionSampler.forward vocabSize metadata (histories.map logitsOf)
    (InputBatch.makeSamplingMetadata reqs)
  return RejectionSampler.parseOutput vocabSize output

def greedyStep (logitsOf : List Int → Row) (reqs : List (CachedRequest vocabSize)) :
    Result (List (CachedRequest vocabSize)) := do
  let logits := reqs.map fun r => logitsOf (r.promptTokenIds ++ r.outputTokenIds)
  let tokens ← Sampler.forward vocabSize logits (InputBatch.makeSamplingMetadata reqs) false
  return List.zipWith (fun r token => { r with outputTokenIds := r.outputTokenIds ++ [token] }) reqs
    tokens

/-- Consecutive steps on the growing histories. -/
def greedySteps (logitsOf : List Int → Row) :
    Nat → List (CachedRequest vocabSize) → Result (List (CachedRequest vocabSize))
  | 0, reqs => .ok reqs
  | n + 1, reqs => do greedySteps logitsOf n (← greedyStep logitsOf reqs)

end GPUModelRunner

end Vllm.Sample
