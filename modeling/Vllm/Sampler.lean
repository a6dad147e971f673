import Mathlib.Algebra.Order.Ring.Rat
import Mathlib.Order.WithBot
import Vllm.Lib.Dict
import Vllm.Lib.Numpy
import Vllm.Lib.Result

namespace Vllm.Sample

/-- A logit in exact arithmetic; the bottom is `-inf`. -/
abbrev Logit := WithBot ℚ

abbrev Row := List Logit

structure SamplingParams (vocabSize : Nat) where
  presencePenalty : ℚ := 0
  frequencyPenalty : ℚ := 0
  repetitionPenalty : ℚ := 1
  allowedTokenIds : List Nat := []
  badWordsTokenIds : List (List Int) := []
  repetitionPenalty_pos : 0 < repetitionPenalty
  badWords_ne_nil : ∀ word ∈ badWordsTokenIds, word ≠ []
  badWords_valid : ∀ word ∈ badWordsTokenIds, ∀ token ∈ word, 0 ≤ token ∧ token < vocabSize

structure SamplingMetadata where
  noPenalties : Bool
  promptTokenIds : Option (List (List Int))
  presencePenalties : List ℚ
  frequencyPenalties : List ℚ
  repetitionPenalties : List ℚ
  outputTokenIds : List (List Int)
  allowedTokenIdsMask : Option (List (List Bool))
  badWordsTokenIds : Dict Nat (List (List Int))
  specTokenIds : Option (List (List Int))

def getTokenBinCounts (vocabSize : Nat) (tokens : List Int) : Result (List Nat) :=
  if ∀ token ∈ tokens, 0 ≤ token ∧ token ≤ vocabSize then
    .ok ((List.range vocabSize).map fun token : Nat => tokens.count (token : Int))
  else .error .indexError

def applyRepetitionPenalty (repetitionPenalty : ℚ) (seen : Bool) (logit : Logit) : Logit :=
  let penalty := if seen then repetitionPenalty else 1
  let scaling := if ((0 : ℚ) : Logit) < logit then 1 / penalty else penalty
  logit.map (· * scaling)

def applyPenaltiesRow (vocabSize : Nat) (promptTokens outputTokens : List Int)
    (presencePenalty frequencyPenalty repetitionPenalty : ℚ) (logits : Row) : Result Row := do
  let promptBinCounts ← getTokenBinCounts vocabSize promptTokens
  let outputBinCounts ← getTokenBinCounts vocabSize outputTokens
  return logits.mapIdx fun token logit =>
    let seen := 0 < promptBinCounts.getD token 0 || 0 < outputBinCounts.getD token 0
    let logit := applyRepetitionPenalty repetitionPenalty seen logit
    let logit := logit.map (· - frequencyPenalty * outputBinCounts.getD token 0)
    logit.map (· - presencePenalty * if 0 < outputBinCounts.getD token 0 then 1 else 0)

def makeTensorWithPad (rows : List (List Int)) (pad : Int) : List (List Int) :=
  let maxLen := (rows.map List.length).foldl max 0
  rows.map fun row => row ++ List.replicate (maxLen - row.length) pad

def applyAllPenalties (vocabSize : Nat) (logits : List Row) (promptTokenIds : List (List Int))
    (presencePenalties frequencyPenalties repetitionPenalties : List ℚ)
    (outputTokenIds : List (List Int)) : Result (List Row) := do
  let outputTokens := (makeTensorWithPad outputTokenIds vocabSize).map
    (·.map fun token => if token = -1 then (vocabSize : Int) else token)
  (List.range logits.length).mapM fun i => do
    applyPenaltiesRow vocabSize (← Result.getItem promptTokenIds i)
      (← Result.getItem outputTokens i) (← Result.getItem presencePenalties i)
      (← Result.getItem frequencyPenalties i) (← Result.getItem repetitionPenalties i)
      (← Result.getItem logits i)

def applyBadWord (pastTokensIds : List Int) (logits : Row) (badWordIds : List Int) : Result Row :=
  if badWordIds.length > pastTokensIds.length + 1 then .ok logits
  else
    match badWordIds.getLast? with
    | none => .error .indexError
    | some lastTokenId => do
      let prefixLength := badWordIds.length - 1
      let actualPrefix :=
        if prefixLength > 0 then pastTokensIds.drop (pastTokensIds.length - prefixLength) else []
      let expectedPrefix := badWordIds.take prefixLength
      Result.ensure (actualPrefix.length = expectedPrefix.length)
        "len(actual_prefix) == len(expected_prefix)"
      if actualPrefix = expectedPrefix then Numpy.setItem logits lastTokenId ⊥ else .ok logits

def applyBadWordsSingleBatch (logits : List Row) (row : Nat) (badWordsTokenIds : List (List Int))
    (pastTokensIds : List (List Int)) : Result (List Row) := do
  let past ← Result.getItem pastTokensIds row
  let x ← badWordsTokenIds.foldlM (applyBadWord past) (← Result.getItem logits row)
  return logits.set row x

def applyBadWords (logits : List Row) (badWordsTokenIds : Dict Nat (List (List Int)))
    (pastTokensIds : List (List Int)) : Result (List Row) :=
  badWordsTokenIds.items.foldlM
    (fun logits (i, badWordsIds) => applyBadWordsSingleBatch logits i badWordsIds pastTokensIds)
    logits

def maskedFill (logits : List Row) (mask : List (List Bool)) : List Row :=
  List.zipWith (List.zipWith fun x masked => if masked then ⊥ else x) logits mask

namespace SamplingMetadata

def hasBadWords (m : SamplingMetadata) : Bool := !m.badWordsTokenIds.items.isEmpty

def anyPenaltiesOrBadWords (m : SamplingMetadata) : Bool := m.hasBadWords || !m.noPenalties

def applyAllowedTokenIds (m : SamplingMetadata) (logits : List Row) : List Row :=
  match m.allowedTokenIdsMask with
  | none => logits
  | some mask => maskedFill logits mask

def applyPenalties (m : SamplingMetadata) (vocabSize : Nat) (logits : List Row)
    (outputTokenIds : List (List Int)) : Result (List Row) :=
  if m.noPenalties then .ok logits
  else
    match m.promptTokenIds with
    | none => .error (.assertionError "prompt_token_ids is not None")
    | some promptTokenIds =>
      applyAllPenalties vocabSize logits promptTokenIds m.presencePenalties m.frequencyPenalties
        m.repetitionPenalties outputTokenIds

end SamplingMetadata

namespace Sampler

def combineOutputsWithSpecTokens (outputTokenIds : List (List Int))
    (specTokenIds : Option (List (List Int))) : List (List Int) :=
  match specTokenIds with
  | none => outputTokenIds
  | some spec => List.zipWith (fun out spec => if spec = [] then out else out ++ spec)
      outputTokenIds spec

def processorTokenIds (m : SamplingMetadata) (predictBonusToken : Bool) : List (List Int) :=
  if predictBonusToken && m.anyPenaltiesOrBadWords then
    combineOutputsWithSpecTokens m.outputTokenIds m.specTokenIds
  else m.outputTokenIds

def applyLogitsProcessors (vocabSize : Nat) (m : SamplingMetadata) (predictBonusToken : Bool)
    (logits : List Row) : Result (List Row) := do
  let outputTokenIds := processorTokenIds m predictBonusToken
  let logits := m.applyAllowedTokenIds logits
  let logits ←
    if m.hasBadWords then applyBadWords logits m.badWordsTokenIds outputTokenIds else .ok logits
  m.applyPenalties vocabSize logits outputTokenIds

def greedySample (logits : List Row) : Result (List Int) :=
  logits.mapM fun row => (fun token : Nat => (token : Int)) <$> Numpy.argmax row

def forward (vocabSize : Nat) (logits : List Row) (m : SamplingMetadata)
    (predictBonusToken : Bool) : Result (List Int) := do
  greedySample (← applyLogitsProcessors vocabSize m predictBonusToken logits)

end Sampler

structure CachedRequest (vocabSize : Nat) where
  promptTokenIds : List Int
  outputTokenIds : List Int
  specTokenIds : List Int
  numComputedTokens : Nat
  samplingParams : SamplingParams vocabSize

namespace InputBatch

variable {vocabSize : Nat}

def noPenalties (reqs : List (CachedRequest vocabSize)) : Bool :=
  reqs.all fun r =>
    r.samplingParams.presencePenalty = 0 && r.samplingParams.frequencyPenalty = 0 &&
      r.samplingParams.repetitionPenalty = 1

def allowedTokenIdsMask (r : CachedRequest vocabSize) : List Bool :=
  (List.range vocabSize).map fun token =>
    !r.samplingParams.allowedTokenIds.isEmpty && token ∉ r.samplingParams.allowedTokenIds

def badWordsTokenIds (reqs : List (CachedRequest vocabSize)) : Dict Nat (List (List Int)) where
  items := (reqs.mapIdx fun i r => (i, r.samplingParams.badWordsTokenIds)).filter (·.2 ≠ [])
  nodup := by
    refine List.Nodup.sublist (List.Sublist.map Prod.fst List.filter_sublist) ?_
    have hrange : (reqs.mapIdx fun i r => (i, r.samplingParams.badWordsTokenIds)).map Prod.fst =
        List.range reqs.length := by
      refine List.ext_getElem? fun i => ?_
      by_cases hi : i < reqs.length
      · simp [hi]
      · simp [hi]
    rw [hrange]
    exact List.nodup_range

def makePromptTokenIdsTensor (reqs : List (CachedRequest vocabSize)) : List (List Int) :=
  makeTensorWithPad (reqs.map (·.promptTokenIds)) vocabSize

def makeSamplingMetadata (reqs : List (CachedRequest vocabSize)) : SamplingMetadata :=
  let needsOutputTokenIds := !noPenalties reqs || !(badWordsTokenIds reqs).items.isEmpty
  { noPenalties := noPenalties reqs
    promptTokenIds := if noPenalties reqs then none else some (makePromptTokenIdsTensor reqs)
    presencePenalties := reqs.map (·.samplingParams.presencePenalty)
    frequencyPenalties := reqs.map (·.samplingParams.frequencyPenalty)
    repetitionPenalties := reqs.map (·.samplingParams.repetitionPenalty)
    outputTokenIds := if needsOutputTokenIds then reqs.map (·.outputTokenIds) else []
    allowedTokenIdsMask :=
      if reqs.all (·.samplingParams.allowedTokenIds.isEmpty) then none
      else some (reqs.map allowedTokenIdsMask)
    badWordsTokenIds := badWordsTokenIds reqs
    specTokenIds := some (reqs.map (·.specTokenIds)) }

end InputBatch

end Vllm.Sample
