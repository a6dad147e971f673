import Mathlib.Data.Finset.Basic
import Vllm.BatchUpdate
import Vllm.BlockTable
import Vllm.Lib.Dict

/-! The persistent batch of the model runner: one index for every request of the step, with the
request's state spread over arrays, dictionaries and sets that all have to follow it. -/

namespace Vllm.Worker

structure PoolingParams where
  requiresTokenIds : Bool
  deriving DecidableEq, Repr

def lengthFromPromptTokenIdsOrEmbeds {E : Type} (promptTokenIds : Option (List Token))
    (promptEmbeds : Option (List E)) : Result Nat :=
  match promptTokenIds, promptEmbeds with
  | none, none => .error (.valueError "Neither prompt_token_ids nor prompt_embeds were defined.")
  | none, some embeds => .ok embeds.length
  | some ids, none => .ok ids.length
  | some ids, some embeds =>
    if embeds.length ≠ ids.length then
      .error (.valueError "Prompt token ids and prompt embeds had different lengths")
    else .ok ids.length

/-- What the worker keeps of a request. `F` are Python's floats, `G` the random generators and `E`
the rows of prompt embeddings. The two laws are checked when the objects are built. -/
structure CachedRequestState (F G E : Type) where
  reqId : ReqId
  promptTokenIds : Option (List Token)
  promptEmbeds : Option (List E) := none
  samplingParams : Option (SamplingParams F)
  poolingParams : Option PoolingParams := none
  generator : Option G := none
  blockIds : List (List Nat)
  numComputedTokens : Nat
  outputTokenIds : List Token := []
  loraRequest : Option LoRARequest := none
  numPromptTokens : Nat
  numPromptTokens_eq :
    lengthFromPromptTokenIdsOrEmbeds promptTokenIds promptEmbeds = .ok numPromptTokens
  loraIntId_pos : ∀ l ∈ loraRequest, 0 < l.loraIntId

theorem loraIntId_pos_of_none : ∀ l ∈ (none : Option LoRARequest), 0 < l.loraIntId := nofun

def CachedRequestState.numTokens {F G E : Type} (r : CachedRequestState F G E) : Nat :=
  r.numPromptTokens + r.outputTokenIds.length

structure InputBatchConfig (F F32 : Type) where
  maxNumReqs : Nat
  maxModelLen : Nat
  vocabSize : Nat
  isPoolingModel : Bool := false
  /-- What numpy stores when a float is assigned to an element of a `float32` array. -/
  toFloat32 : F → F32

structure InputBatch (F F32 G E : Type) where
  reqIds : List (Option ReqId)
  reqIdToIndex : Dict ReqId Nat
  tokenIdsCpu : Nat → Nat → Token
  isTokenIds : Nat → Nat → Bool
  reqPromptEmbeds : Dict Nat (List E)
  numTokensNoSpec : Nat → Nat
  numPromptTokens : Nat → Nat
  numComputedTokensCpu : Nat → Nat
  blockTable : MultiGroupBlockTable
  temperatureCpu : Nat → F32
  greedyReqs : Finset ReqId
  randomReqs : Finset ReqId
  topPCpu : Nat → F32
  topPReqs : Finset ReqId
  topKCpu : Nat → Int
  topKReqs : Finset ReqId
  frequencyPenaltiesCpu : Nat → F32
  frequencyPenaltiesReqs : Finset ReqId
  presencePenaltiesCpu : Nat → F32
  presencePenaltiesReqs : Finset ReqId
  repetitionPenaltiesCpu : Nat → F32
  repetitionPenaltiesReqs : Finset ReqId
  numAcceptedTokensCpu : Nat → Nat
  requestLoraMapping : Nat → Nat
  loraIdToRequestIds : Dict Nat (Finset ReqId)
  loraIdToLoraRequest : Dict Nat LoRARequest
  generators : Dict Nat G
  numLogprobs : Dict ReqId Int
  batchUpdateBuilder : BatchUpdateBuilder F
  hasAllowedTokenIds : Finset ReqId
  allowedTokenIdsMaskCpuTensor : Option (Nat → Nat → Bool)
  badWordsTokenIds : Dict Nat (List (List Token))
  logitsProcessingNeedsTokenIds : Nat → Bool
  reqOutputTokenIds : List (Option (List Token))
  specTokenIds : List (List Token)
  poolingParams : Dict ReqId PoolingParams

namespace InputBatch

variable {F F32 G E : Type}

section Init

variable [Zero F]

/-- The empty batch over the given tables. Arrays the source leaves uninitialised hold zeros. -/
def init (c : InputBatchConfig F F32) (blockTable : MultiGroupBlockTable) :
    InputBatch F F32 G E where
  reqIds := []
  reqIdToIndex := .empty
  tokenIdsCpu := fun _ _ => 0
  isTokenIds := fun _ _ => false
  reqPromptEmbeds := .empty
  numTokensNoSpec := fun _ => 0
  numPromptTokens := fun _ => 0
  numComputedTokensCpu := fun _ => 0
  blockTable
  temperatureCpu := fun _ => c.toFloat32 0
  greedyReqs := ∅
  randomReqs := ∅
  topPCpu := fun _ => c.toFloat32 0
  topPReqs := ∅
  topKCpu := fun _ => 0
  topKReqs := ∅
  frequencyPenaltiesCpu := fun _ => c.toFloat32 0
  frequencyPenaltiesReqs := ∅
  presencePenaltiesCpu := fun _ => c.toFloat32 0
  presencePenaltiesReqs := ∅
  repetitionPenaltiesCpu := fun _ => c.toFloat32 0
  repetitionPenaltiesReqs := ∅
  numAcceptedTokensCpu := fun _ => 1
  requestLoraMapping := fun _ => 0
  loraIdToRequestIds := .empty
  loraIdToLoraRequest := .empty
  generators := .empty
  numLogprobs := .empty
  batchUpdateBuilder := .init
  hasAllowedTokenIds := ∅
  allowedTokenIdsMaskCpuTensor := none
  badWordsTokenIds := .empty
  logitsProcessingNeedsTokenIds := fun _ => false
  reqOutputTokenIds := []
  specTokenIds := List.replicate c.maxNumReqs []
  poolingParams := .empty

end Init

def numReqs (b : InputBatch F F32 G E) : Nat := b.reqIdToIndex.size

def withBuilder (b : InputBatch F F32 G E) (u : BatchUpdateBuilder F) : InputBatch F F32 G E :=
  { b with batchUpdateBuilder := u }

def withLora (b : InputBatch F F32 G E) (mapping : Nat → Nat) (ids : Dict Nat (Finset ReqId))
    (loras : Dict Nat LoRARequest) : InputBatch F F32 G E :=
  { b with
    requestLoraMapping := mapping
    loraIdToRequestIds := ids
    loraIdToLoraRequest := loras }

def withTables (b : InputBatch F F32 G E) (ts : MultiGroupBlockTable) : InputBatch F F32 G E :=
  { b with blockTable := ts }

/-- `num_computed_tokens_cpu[i] = n`, and the tables with the new blocks. -/
def withRunning (b : InputBatch F F32 G E) (i n : Nat) (ts : MultiGroupBlockTable) :
    InputBatch F F32 G E :=
  { b with
    numComputedTokensCpu := Function.update b.numComputedTokensCpu i n
    blockTable := ts }

def setIfSome {κ α : Type} [DecidableEq κ] (d : Dict κ α) (k : κ) (v : Option α) : Dict κ α :=
  match v with
  | some v => d.set k v
  | none => d

section AddRequest

variable [Zero F] [One F] [LT F] [DecidableLT F] [DecidableEq F]

def registerAddRequest (c : InputBatchConfig F F32) (b : InputBatch F F32 G E)
    (request : CachedRequestState F G E) : Result (Nat × InputBatch F F32 G E) := do
  let (popped, u) := b.batchUpdateBuilder.popRemoved
  let newReqIndex := popped.getD b.numReqs
  Result.ensure (newReqIndex < c.maxNumReqs) ""
  let added : List (AddedRequest F) :=
    match request.samplingParams with
    | some params => u.added ++ [⟨newReqIndex, params, request.promptTokenIds,
        request.outputTokenIds⟩]
    | none => u.added
  return (newReqIndex, b.withBuilder { u with batchChanged := true, added })

def placeRequest (b : InputBatch F F32 G E) (reqIndex : Nat)
    (request : CachedRequestState F G E) : Result (InputBatch F F32 G E) :=
  if reqIndex = b.reqIds.length then
    .ok { b with
      reqIds := b.reqIds ++ [some request.reqId]
      reqOutputTokenIds := b.reqOutputTokenIds ++ [some request.outputTokenIds]
      specTokenIds := b.specTokenIds ++ [[]]
      reqIdToIndex := b.reqIdToIndex.set request.reqId reqIndex }
  else if reqIndex < b.reqIds.length then
    .ok { b with
      reqIds := b.reqIds.set reqIndex (some request.reqId)
      reqOutputTokenIds := b.reqOutputTokenIds.set reqIndex (some request.outputTokenIds)
      specTokenIds := b.specTokenIds.set reqIndex []
      reqIdToIndex := b.reqIdToIndex.set request.reqId reqIndex }
  else .error .indexError

def tokenRow (c : InputBatchConfig F F32) (row : Nat → Token)
    (request : CachedRequestState F G E) : Result (Nat → Token) := do
  let row ← (match request.promptTokenIds with
    | some ids => assignSlice c.maxModelLen row 0 ids
    | none => .ok row : Result (Nat → Token))
  assignSlice c.maxModelLen row request.numPromptTokens request.outputTokenIds

def storeTokens (b : InputBatch F F32 G E) (reqIndex : Nat) (request : CachedRequestState F G E)
    (row : Nat → Token) : InputBatch F F32 G E :=
  { b with
    numPromptTokens := Function.update b.numPromptTokens reqIndex request.numPromptTokens
    tokenIdsCpu := Function.update b.tokenIdsCpu reqIndex row
    isTokenIds := Function.update b.isTokenIds reqIndex fun j =>
      if j < request.numPromptTokens then request.promptTokenIds.isSome
      else if j < request.numPromptTokens + request.outputTokenIds.length then true
      else b.isTokenIds reqIndex j
    reqPromptEmbeds := setIfSome b.reqPromptEmbeds reqIndex request.promptEmbeds
    numTokensNoSpec := Function.update b.numTokensNoSpec reqIndex request.numTokens
    numComputedTokensCpu :=
      Function.update b.numComputedTokensCpu reqIndex request.numComputedTokens }

def storedTemperature (c : InputBatchConfig F F32) (params : SamplingParams F) : F32 :=
  if params.samplingType = .greedy then c.toFloat32 0 else c.toFloat32 params.temperature

/-- The `top_k` an index holds: the whole vocabulary when the parameter restricts nothing. -/
def storedTopK (c : InputBatchConfig F F32) (params : SamplingParams F) : Int :=
  if 0 < params.topK ∧ params.topK < c.vocabSize then params.topK else c.vocabSize

def insertIf (p : Prop) [Decidable p] (id : ReqId) (s : Finset ReqId) : Finset ReqId :=
  if p then insert id s else s

def storeSampling (c : InputBatchConfig F F32) (b : InputBatch F F32 G E) (i : Nat)
    (request : CachedRequestState F G E) (params : SamplingParams F) : InputBatch F F32 G E :=
  let id := request.reqId
  { b with
    temperatureCpu := Function.update b.temperatureCpu i (storedTemperature c params)
    greedyReqs := insertIf (params.samplingType = .greedy) id b.greedyReqs
    randomReqs := insertIf (params.samplingType ≠ .greedy) id b.randomReqs
    topPCpu := Function.update b.topPCpu i (c.toFloat32 params.topP)
    topPReqs := insertIf (params.topP < 1) id b.topPReqs
    topKCpu := Function.update b.topKCpu i (storedTopK c params)
    topKReqs := insertIf (0 < params.topK ∧ params.topK < c.vocabSize) id b.topKReqs
    frequencyPenaltiesCpu :=
      Function.update b.frequencyPenaltiesCpu i (c.toFloat32 params.frequencyPenalty)
    frequencyPenaltiesReqs := insertIf (params.frequencyPenalty ≠ 0) id b.frequencyPenaltiesReqs
    presencePenaltiesCpu :=
      Function.update b.presencePenaltiesCpu i (c.toFloat32 params.presencePenalty)
    presencePenaltiesReqs := insertIf (params.presencePenalty ≠ 0) id b.presencePenaltiesReqs
    repetitionPenaltiesCpu :=
      Function.update b.repetitionPenaltiesCpu i (c.toFloat32 params.repetitionPenalty)
    repetitionPenaltiesReqs :=
      insertIf (params.repetitionPenalty ≠ 1) id b.repetitionPenaltiesReqs
    numAcceptedTokensCpu := Function.update b.numAcceptedTokensCpu i 1
    generators := setIfSome b.generators i request.generator
    numLogprobs := setIfSome b.numLogprobs id
      (params.logprobs.map fun n => if n = -1 then c.vocabSize else n)
    hasAllowedTokenIds := insertIf (params.allowedTokenIds ≠ []) id b.hasAllowedTokenIds
    allowedTokenIdsMaskCpuTensor :=
      if params.allowedTokenIds ≠ [] then
        some (Function.update (b.allowedTokenIdsMaskCpuTensor.getD fun _ _ => false) i
          fun t => !params.allowedTokenIds.contains t)
      else b.allowedTokenIdsMaskCpuTensor
    badWordsTokenIds :=
      if params.badWordsTokenIds ≠ [] then b.badWordsTokenIds.set i params.badWordsTokenIds
      else b.badWordsTokenIds }

def storePooling (b : InputBatch F F32 G E) (i : Nat) (request : CachedRequestState F G E)
    (params : PoolingParams) : InputBatch F F32 G E :=
  { b with
    poolingParams := b.poolingParams.set request.reqId params
    numAcceptedTokensCpu := Function.update b.numAcceptedTokensCpu i 1
    logitsProcessingNeedsTokenIds :=
      Function.update b.logitsProcessingNeedsTokenIds i params.requiresTokenIds }

def storeLora (b : InputBatch F F32 G E) (i : Nat) (request : CachedRequestState F G E) :
    InputBatch F F32 G E :=
  match request.loraRequest with
  | some lora =>
    let ids := b.loraIdToRequestIds.getD lora.loraIntId ∅
    b.withLora (Function.update b.requestLoraMapping i lora.loraIntId)
      (b.loraIdToRequestIds.set lora.loraIntId (insert request.reqId ids))
      (b.loraIdToLoraRequest.set lora.loraIntId lora)
  | none =>
    b.withLora (Function.update b.requestLoraMapping i 0) b.loraIdToRequestIds
      b.loraIdToLoraRequest

def addRequest (c : InputBatchConfig F F32) (b : InputBatch F F32 G E)
    (request : CachedRequestState F G E) : Result (Nat × InputBatch F F32 G E) := do
  let (reqIndex, b) ← b.registerAddRequest c request
  let b ← b.placeRequest reqIndex request
  let row ← tokenRow c (b.tokenIdsCpu reqIndex) request
  let b := b.storeTokens reqIndex request row
  let ts ← b.blockTable.addRow request.blockIds reqIndex
  let b := b.withTables ts
  match request.samplingParams, request.poolingParams with
  | some params, _ =>
    return (reqIndex, (b.storeSampling c reqIndex request params).storeLora reqIndex request)
  | none, some params =>
    return (reqIndex, (b.storePooling reqIndex request params).storeLora reqIndex request)
  | none, none => throw (.notImplementedError "Unrecognized request type")

end AddRequest

def getIndex (b : InputBatch F F32 G E) (reqId : ReqId) : Result Nat :=
  match b.reqIdToIndex.get? reqId with
  | some i => .ok i
  | none => .error .keyError

def updateReqSpecTokenIds (c : InputBatchConfig F F32) (b : InputBatch F F32 G E) (reqId : ReqId)
    (spec : List Token) : Result (InputBatch F F32 G E) := do
  let i ← b.getIndex reqId
  let row ← (if spec = [] then .ok (b.tokenIdsCpu i)
    else assignSlice c.maxModelLen (b.tokenIdsCpu i) (b.numTokensNoSpec i) spec :
    Result (Nat → Token))
  return { b with
    tokenIdsCpu := Function.update b.tokenIdsCpu i row
    specTokenIds := b.specTokenIds.set i spec }

def dropLora (b : InputBatch F F32 G E) (reqIndex : Nat) (reqId : ReqId) :
    Result (InputBatch F F32 G E) :=
  let loraId := b.requestLoraMapping reqIndex
  if loraId = 0 then .ok b
  else
    match b.loraIdToRequestIds.get? loraId with
    | none => .error .keyError
    | some ids =>
      let ids := ids.erase reqId
      let mapping := Function.update b.requestLoraMapping reqIndex 0
      if ids = ∅ then
        .ok (b.withLora mapping (b.loraIdToRequestIds.erase loraId)
          (b.loraIdToLoraRequest.erase loraId))
      else .ok (b.withLora mapping (b.loraIdToRequestIds.set loraId ids) b.loraIdToLoraRequest)

def dropSampling (b : InputBatch F F32 G E) (reqIndex : Nat) (reqId : ReqId) :
    InputBatch F F32 G E :=
  { b with
    greedyReqs := b.greedyReqs.erase reqId
    randomReqs := b.randomReqs.erase reqId
    topPReqs := b.topPReqs.erase reqId
    topKReqs := b.topKReqs.erase reqId
    frequencyPenaltiesReqs := b.frequencyPenaltiesReqs.erase reqId
    presencePenaltiesReqs := b.presencePenaltiesReqs.erase reqId
    repetitionPenaltiesReqs := b.repetitionPenaltiesReqs.erase reqId
    generators := b.generators.erase reqIndex
    numLogprobs := b.numLogprobs.erase reqId
    hasAllowedTokenIds := b.hasAllowedTokenIds.erase reqId
    allowedTokenIdsMaskCpuTensor := b.allowedTokenIdsMaskCpuTensor.map fun mask =>
      Function.update mask reqIndex fun _ => false
    badWordsTokenIds := b.badWordsTokenIds.erase reqIndex }

def vacate (b : InputBatch F F32 G E) (reqIndex : Nat) (reqId : ReqId) : InputBatch F F32 G E :=
  { b with
    reqIdToIndex := b.reqIdToIndex.erase reqId
    reqIds := b.reqIds.set reqIndex none
    reqOutputTokenIds := b.reqOutputTokenIds.set reqIndex none
    specTokenIds := b.specTokenIds.set reqIndex [] }

def removeRequest (c : InputBatchConfig F F32) (b : InputBatch F F32 G E) (reqId : ReqId) :
    Result (Option Nat × InputBatch F F32 G E) :=
  match b.reqIdToIndex.get? reqId with
  | none => .ok (none, b)
  | some reqIndex => do
    let u ← b.batchUpdateBuilder.removedAppend reqIndex
    let b ← ((b.withBuilder u).vacate reqIndex reqId).dropLora reqIndex reqId
    if c.isPoolingModel then
      return (some reqIndex, { b with poolingParams := b.poolingParams.erase reqId })
    return (some reqIndex, b.dropSampling reqIndex reqId)

def swapItems {α : Type} (l : List α) (i j : Nat) : List α :=
  match l[i]?, l[j]? with
  | some a, some b => (l.set i b).set j a
  | _, _ => l

def setOrPop {α : Type} (d : Dict Nat α) (k : Nat) (v : Option α) : Dict Nat α :=
  match v with
  | some v => d.set k v
  | none => d.erase k

def swapDictValues {α : Type} (d : Dict Nat α) (key1 key2 : Nat) : Dict Nat α :=
  let v1 := d.get? key1
  let v2 := d.get? key2
  setOrPop (setOrPop d key2 v1) key1 v2

/-- The part of a swap that a pooling model skips. The rows of the mask are views of one tensor:
the row of `i1` is overwritten before it is read for `i2`. -/
def swapSampling (b : InputBatch F F32 G E) (i1 i2 : Nat) : InputBatch F F32 G E :=
  { b with
    batchUpdateBuilder :=
      { b.batchUpdateBuilder with
        moved := b.batchUpdateBuilder.moved ++ [(i1, i2, .swap)] }
    temperatureCpu := b.temperatureCpu ∘ Equiv.swap i1 i2
    topPCpu := b.topPCpu ∘ Equiv.swap i1 i2
    topKCpu := b.topKCpu ∘ Equiv.swap i1 i2
    frequencyPenaltiesCpu := b.frequencyPenaltiesCpu ∘ Equiv.swap i1 i2
    presencePenaltiesCpu := b.presencePenaltiesCpu ∘ Equiv.swap i1 i2
    repetitionPenaltiesCpu := b.repetitionPenaltiesCpu ∘ Equiv.swap i1 i2
    numAcceptedTokensCpu := b.numAcceptedTokensCpu ∘ Equiv.swap i1 i2
    generators := swapDictValues b.generators i1 i2
    badWordsTokenIds := swapDictValues b.badWordsTokenIds i1 i2
    allowedTokenIdsMaskCpuTensor := b.allowedTokenIdsMaskCpuTensor.map fun mask =>
      let mask := Function.update mask i1 (mask i2)
      Function.update mask i2 (mask i1) }

def swapCommon (b : InputBatch F F32 G E) (i1 i2 : Nat) (index : Dict ReqId Nat) :
    InputBatch F F32 G E :=
  { b with
    reqIds := swapItems b.reqIds i1 i2
    reqOutputTokenIds := swapItems b.reqOutputTokenIds i1 i2
    specTokenIds := swapItems b.specTokenIds i1 i2
    reqIdToIndex := index
    numTokensNoSpec := b.numTokensNoSpec ∘ Equiv.swap i1 i2
    numPromptTokens := b.numPromptTokens ∘ Equiv.swap i1 i2
    numComputedTokensCpu := b.numComputedTokensCpu ∘ Equiv.swap i1 i2
    tokenIdsCpu := b.tokenIdsCpu ∘ Equiv.swap i1 i2
    isTokenIds := b.isTokenIds ∘ Equiv.swap i1 i2
    reqPromptEmbeds := swapDictValues b.reqPromptEmbeds i1 i2
    blockTable := b.blockTable.swapRow i1 i2
    requestLoraMapping := b.requestLoraMapping ∘ Equiv.swap i1 i2 }

def swapStates (c : InputBatchConfig F F32) (b : InputBatch F F32 G E) (i1 i2 : Nat) :
    Result (InputBatch F F32 G E) := do
  let oldIdI1 ← Result.getItem b.reqIds i1
  let oldIdI2 ← Result.getItem b.reqIds i2
  match oldIdI1, oldIdI2 with
  | some id1, some id2 =>
    let j1 ← b.getIndex id1
    let j2 ← b.getIndex id2
    let b := b.swapCommon i1 i2 ((b.reqIdToIndex.set id1 j2).set id2 j1)
    return if c.isPoolingModel then b else b.swapSampling i1 i2
  | _, _ => throw (.assertionError "")

def moveEntry {α : Type} (d : Dict Nat α) (src tgt : Nat) : Dict Nat α :=
  match d.get? src with
  | some v => (d.erase src).set tgt v
  | none => d

def moveSampling (b : InputBatch F F32 G E) (last empty : Nat) : InputBatch F F32 G E :=
  { b with
    batchUpdateBuilder :=
      { b.batchUpdateBuilder with
        moved := b.batchUpdateBuilder.moved ++ [(last, empty, .unidirectional)] }
    temperatureCpu := Function.update b.temperatureCpu empty (b.temperatureCpu last)
    topPCpu := Function.update b.topPCpu empty (b.topPCpu last)
    topKCpu := Function.update b.topKCpu empty (b.topKCpu last)
    frequencyPenaltiesCpu :=
      Function.update b.frequencyPenaltiesCpu empty (b.frequencyPenaltiesCpu last)
    presencePenaltiesCpu :=
      Function.update b.presencePenaltiesCpu empty (b.presencePenaltiesCpu last)
    repetitionPenaltiesCpu :=
      Function.update b.repetitionPenaltiesCpu empty (b.repetitionPenaltiesCpu last)
    numAcceptedTokensCpu :=
      Function.update b.numAcceptedTokensCpu empty (b.numAcceptedTokensCpu last)
    generators := moveEntry b.generators last empty
    allowedTokenIdsMaskCpuTensor := b.allowedTokenIdsMaskCpuTensor.map fun mask =>
      Function.update mask empty (mask last)
    badWordsTokenIds := moveEntry b.badWordsTokenIds last empty }

def copyFirst {α : Type} (n : Nat) (src tgt : Nat → α) : Nat → α :=
  fun j => if j < n then src j else tgt j

def moveCommon (b : InputBatch F F32 G E) (last empty : Nat) (reqId : ReqId)
    (outputTokenIds : Option (List Token)) (spec : List Token) : InputBatch F F32 G E :=
  let numTokens := b.numTokensNoSpec last + spec.length
  { b with
    reqIds := (b.reqIds.set empty (some reqId)).set last none
    reqOutputTokenIds := (b.reqOutputTokenIds.set empty outputTokenIds).set last none
    reqIdToIndex := b.reqIdToIndex.set reqId empty
    specTokenIds := (b.specTokenIds.set empty spec).set last []
    tokenIdsCpu := Function.update b.tokenIdsCpu empty
      (copyFirst numTokens (b.tokenIdsCpu last) (b.tokenIdsCpu empty))
    isTokenIds := Function.update b.isTokenIds empty
      (copyFirst numTokens (b.isTokenIds last) (b.isTokenIds empty))
    reqPromptEmbeds := moveEntry b.reqPromptEmbeds last empty
    numTokensNoSpec := Function.update b.numTokensNoSpec empty (b.numTokensNoSpec last)
    numPromptTokens := Function.update b.numPromptTokens empty (b.numPromptTokens last)
    numComputedTokensCpu :=
      Function.update b.numComputedTokensCpu empty (b.numComputedTokensCpu last)
    blockTable := b.blockTable.moveRow last empty
    requestLoraMapping :=
      Function.update b.requestLoraMapping empty (b.requestLoraMapping last) }

/-- The body of the loop in `condense`: the request at `last` moves down to `empty`. -/
def moveRequest (c : InputBatchConfig F F32) (b : InputBatch F F32 G E) (last empty : Nat) :
    Result (InputBatch F F32 G E) := do
  let reqId? ← Result.getItem b.reqIds last
  let outputTokenIds ← Result.getItem b.reqOutputTokenIds last
  match reqId? with
  | none => throw (.assertionError "")
  | some reqId =>
    let spec ← Result.getItem b.specTokenIds last
    let b := b.moveCommon last empty reqId outputTokenIds spec
    return if c.isPoolingModel then b else b.moveSampling last empty

/-- The largest index not above `last` that is not empty. Index `0` ends the search: were it empty
too, the caller's test against the smallest empty index would end the loop there as well. -/
def largestNonEmpty (removed : List Nat) : Nat → Nat
  | 0 => 0
  | last + 1 => if last + 1 ∈ removed then largestNonEmpty removed last else last + 1

def condenseLoop (c : InputBatchConfig F F32) :
    Nat → Nat → InputBatch F F32 G E → Result (InputBatch F F32 G E)
  | 0, _, b => .ok b
  | fuel + 1, last, b =>
    if b.batchUpdateBuilder.removed = [] then .ok b
    else
      let last := largestNonEmpty b.batchUpdateBuilder.removed last
      let (empty?, u) := b.batchUpdateBuilder.peekRemoved
      match empty? with
      | none => .error (.assertionError "")
      | some empty =>
        if last ≤ empty then .ok (b.withBuilder u)
        else do
          let b ← (b.withBuilder u.popRemoved.2).moveRequest c last empty
          condenseLoop c fuel (last - 1) b

def trim (b : InputBatch F F32 G E) (n : Nat) : InputBatch F F32 G E :=
  { b with
    reqIds := b.reqIds.take n
    reqOutputTokenIds := b.reqOutputTokenIds.take n
    specTokenIds := b.specTokenIds.take n }

def condense (c : InputBatchConfig F F32) (b : InputBatch F F32 G E) :
    Result (InputBatch F F32 G E) := do
  let u := b.batchUpdateBuilder.ensureRemovedSorted
  let numReqs := b.numReqs
  let b := b.withBuilder u
  if u.removed = [] then return b
  if numReqs = 0 then return b.trim 0
  let b ← b.condenseLoop c u.removed.length (numReqs + u.removed.length - 1)
  return b.trim numReqs

/-- The update the logits processors receive, `none` if nothing changed. -/
def refreshMetadata (c : InputBatchConfig F F32) (b : InputBatch F F32 G E) :
    Option (BatchUpdate F) × InputBatch F F32 G E :=
  if c.isPoolingModel then (none, b.withBuilder b.batchUpdateBuilder.reset.2)
  else
    let (update, u) := b.batchUpdateBuilder.getAndReset b.numReqs
    (update, b.withBuilder u)

end InputBatch

end Vllm.Worker
