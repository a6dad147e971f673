import Vllm.Lib.Dict
import Vllm.SpeculativeLayout

/-! The input ids of a step. The tokens that the previous step has sampled, and its drafts, are still on the GPU. -/

namespace Vllm.InputIds

open Sample Segments

structure CpuGpuBuffer (α : Type) where
  cpu : List α
  gpu : List α

def copyInto {α : Type} (xs : List α) (n : Nat) (ys : List α) : Result (List α) :=
  if ys.length = (xs.take n).length then .ok (ys ++ xs.drop n) else .error (.runtimeError "size mismatch")

def CpuGpuBuffer.copyToGpu {α : Type} (n : Nat) (b : CpuGpuBuffer α) : Result (CpuGpuBuffer α) := do
  return { b with gpu := ← copyInto b.gpu n (b.cpu.take n) }

inductive DraftTokenIds
  | lists (ids : List (List Int))
  | tensor (ids : List (List Int))

structure InputBatch (ReqId : Type) where
  reqIdToIndex : Dict ReqId Nat
  maxModelLen : Nat
  tokenIdsCpu : List (List Int)
  isTokenIds : List (List Bool)
  numComputedTokensCpu : List Nat
  prevSampledTokenIds : Option (List Int)
  prevReqIdToIndex : Option (Dict ReqId Nat)

structure SchedulerOutput (ReqId : Type) where
  totalNumScheduledTokens : Nat
  scheduledSpecDecodeTokens : Dict ReqId (List Int)

structure GPUModelRunner (E : Type) where
  inputIds : CpuGpuBuffer Int
  isTokenIds : CpuGpuBuffer Bool
  inputsEmbeds : CpuGpuBuffer E
  enablePromptEmbeds : Bool
  numSpecTokens : Nat
  draftTokenIds : Option DraftTokenIds

structure CommonRequests where
  sampleFlattenedIndices : List Nat := []
  specFlattenedIndices : List Nat := []
  prevCommonReqIndices : List Nat := []
  prevDraftTokenIndices : List Nat := []
  indicesMatch : Bool := true
  maxFlattenedIndex : Int := -1
  totalNumSpecTokens : Nat := 0

variable {ReqId E : Type} [DecidableEq ReqId]

def visit (prevReqIdToIndex : Dict ReqId Nat) (scheduledSpecTokens : Dict ReqId (List Int)) (numSpecTokens : Nat)
    (cuNumTokens : List Nat) (c : CommonRequests) (request : ReqId × Nat) : Result CommonRequests :=
  match prevReqIdToIndex.get? request.1 with
  | none => .ok c
  | some prevIndex => do
    let draftLen := (scheduledSpecTokens.getD request.1 []).length
    let flattenedIndex := (← Result.getItem cuNumTokens request.2) - 1
    return {
      sampleFlattenedIndices := c.sampleFlattenedIndices ++ [flattenedIndex - draftLen]
      specFlattenedIndices := c.specFlattenedIndices ++ List.range' (flattenedIndex - draftLen + 1) draftLen
      prevCommonReqIndices := c.prevCommonReqIndices ++ [prevIndex]
      prevDraftTokenIndices := c.prevDraftTokenIndices ++ List.range' (prevIndex * numSpecTokens) draftLen
      indicesMatch := c.indicesMatch && prevIndex == flattenedIndex
      maxFlattenedIndex := max c.maxFlattenedIndex flattenedIndex
      totalNumSpecTokens := c.totalNumSpecTokens + draftLen }

namespace GPUModelRunner

def copyInputs (n : Nat) (self : GPUModelRunner E) : Result (GPUModelRunner E) := do
  let self := { self with inputIds := ← self.inputIds.copyToGpu n }
  if self.enablePromptEmbeds then
    let self := { self with inputsEmbeds := ← self.inputsEmbeds.copyToGpu n }
    return { self with isTokenIds := ← self.isTokenIds.copyToGpu n }
  else
    return self

def setInputIds (self : GPUModelRunner E) (gpu : List Int) : GPUModelRunner E :=
  { self with inputIds.gpu := gpu }

def copySampled (numCommonTokens : Nat) (prevSampledTokenIds : List Int) (self : GPUModelRunner E) :
    Result (GPUModelRunner E) := do
  let self := self.setInputIds (← copyInto self.inputIds.gpu numCommonTokens (prevSampledTokenIds.take numCommonTokens))
  if self.enablePromptEmbeds then
    let mask := List.replicate (self.isTokenIds.gpu.take numCommonTokens).length true
    return { self with isTokenIds.gpu := mask ++ self.isTokenIds.gpu.drop numCommonTokens }
  else
    return self

def scatterTokens (c : CommonRequests) (prevSampledTokenIds : List Int) (self : GPUModelRunner E) :
    Result (GPUModelRunner E) := do
  let sampled ← gather prevSampledTokenIds c.prevCommonReqIndices
  let self := self.setInputIds (← scatter self.inputIds.gpu c.sampleFlattenedIndices sampled)
  match self.draftTokenIds with
  | none => return self
  | some draftTokenIds =>
    if c.specFlattenedIndices = [] then return self
    match draftTokenIds with
    | .lists _ => throw (.assertionError "isinstance(self._draft_token_ids, torch.Tensor)")
    | .tensor ids =>
      let drafts ← gather ids.flatten c.prevDraftTokenIndices
      return self.setInputIds (← scatter self.inputIds.gpu c.specFlattenedIndices drafts)

def prepareInputIds (batch : InputBatch ReqId) (output : SchedulerOutput ReqId) (cuNumTokens : List Nat)
    (self : GPUModelRunner E) : Result (GPUModelRunner E) :=
  match batch.prevSampledTokenIds with
  | none => self.copyInputs output.totalNumScheduledTokens
  | some prevSampledTokenIds =>
    match batch.prevReqIdToIndex with
    | none => .error (.assertionError "prev_req_id_to_index is not None")
    | some prevReqIdToIndex => do
      let c ← batch.reqIdToIndex.items.foldlM
        (visit prevReqIdToIndex output.scheduledSpecDecodeTokens self.numSpecTokens cuNumTokens) {}
      let numCommonTokens := c.sampleFlattenedIndices.length
      let totalWithoutSpec := output.totalNumScheduledTokens - c.totalNumSpecTokens
      let self ← if numCommonTokens < totalWithoutSpec then self.copyInputs output.totalNumScheduledTokens else .ok self
      if numCommonTokens = 0 then return self
      if c.indicesMatch ∧ c.maxFlattenedIndex = (numCommonTokens : Int) - 1 then
        self.copySampled numCommonTokens prevSampledTokenIds
      else
        self.scatterTokens c prevSampledTokenIds

def prepareInputs (batch : InputBatch ReqId) (output : SchedulerOutput ReqId) (numScheduledTokens : List Nat)
    (self : GPUModelRunner E) : Result (GPUModelRunner E) := do
  let total := output.totalNumScheduledTokens
  Result.ensure (0 < total) "total_num_scheduled_tokens > 0"
  let numReqs := batch.reqIdToIndex.size
  Result.ensure (0 < numReqs) "num_reqs > 0"
  let reqIndices := repeatEach (List.range numReqs) numScheduledTokens
  let (cuNumTokens, arange) ← Sample.GPUModelRunner.getCumsumAndArange numScheduledTokens
  let positions := List.zipWith (· + ·) (← gather batch.numComputedTokensCpu reqIndices) arange
  let tokenIndices := List.zipWith (· + ·) positions (reqIndices.map (· * batch.maxModelLen))
  let inputIds ← copyInto self.inputIds.cpu total (← gather batch.tokenIdsCpu.flatten tokenIndices)
  let self := { self with inputIds.cpu := inputIds }
  let self ← if self.enablePromptEmbeds then do
      let isTokenIds ← copyInto self.isTokenIds.cpu total (← gather batch.isTokenIds.flatten tokenIndices)
      .ok { self with isTokenIds.cpu := isTokenIds }
    else .ok self
  self.prepareInputIds batch output cuNumTokens

end GPUModelRunner

/-- A step: the batch, what is scheduled of it, row by row, and what the runner has kept of the previous step. -/
structure Step (ReqId E : Type) [DecidableEq ReqId] where
  batch : InputBatch ReqId
  scheduledSpecDecodeTokens : Dict ReqId (List Int)
  numScheduledTokens : List Nat
  runner : GPUModelRunner E

namespace Step

variable (s : Step ReqId E)

def output : SchedulerOutput ReqId := ⟨s.numScheduledTokens.sum, s.scheduledSpecDecodeTokens⟩

def draftLen (r : ReqId) : Nat := (s.scheduledSpecDecodeTokens.getD r []).length

def prevIndex (r : ReqId) : Option Nat :=
  s.batch.prevSampledTokenIds.bind fun _ => s.batch.prevReqIdToIndex.bind (·.get? r)

structure Scheduled (r : ReqId) (i n : Nat) : Prop where
  index : s.batch.reqIdToIndex.get? r = some i
  count : s.numScheduledTokens[i]? = some n

def start (i : Nat) : Nat := (s.numScheduledTokens.take i).sum

def cpuToken (i j : Nat) : Option Int :=
  s.batch.tokenIdsCpu[i]?.bind fun row => s.batch.numComputedTokensCpu[i]?.bind fun c => row[c + j]?

def mask (i j : Nat) : Option Bool :=
  s.batch.isTokenIds[i]?.bind fun row => s.batch.numComputedTokensCpu[i]?.bind fun c => row[c + j]?

def prevDraft (p j : Nat) : Option Int :=
  match s.runner.draftTokenIds with
  | some (.tensor ids) => ids[p]?.bind (·[j]?)
  | _ => none

/-- What the `j`-th token of a request in row `i` is taken from. -/
def token (r : ReqId) (i j : Nat) : Option Int :=
  match s.prevIndex r, j with
  | none, j => s.cpuToken i j
  | some p, 0 => s.batch.prevSampledTokenIds.bind (·[p]?)
  | some p, j + 1 => s.prevDraft p j

/-- What the callers see to. -/
structure Valid : Prop where
  indexes : s.batch.reqIdToIndex.values.Perm (List.range s.numScheduledTokens.length)
  scheduled : s.numScheduledTokens ≠ [] ∧ ∀ n ∈ s.numScheduledTokens, 1 ≤ n
  rows : s.batch.tokenIdsCpu.length = s.batch.numComputedTokensCpu.length ∧
    s.batch.isTokenIds.length = s.batch.numComputedTokensCpu.length ∧
    s.numScheduledTokens.length ≤ s.batch.numComputedTokensCpu.length
  width : (∀ row ∈ s.batch.tokenIdsCpu, row.length = s.batch.maxModelLen) ∧
    ∀ row ∈ s.batch.isTokenIds, row.length = s.batch.maxModelLen
  room : ∀ (i n c : Nat), s.numScheduledTokens[i]? = some n → s.batch.numComputedTokensCpu[i]? = some c →
    c + n ≤ s.batch.maxModelLen
  buffers : s.runner.inputIds.cpu.length = s.runner.inputIds.gpu.length ∧
    s.runner.isTokenIds.cpu.length = s.runner.inputIds.gpu.length ∧
    s.runner.isTokenIds.gpu.length = s.runner.inputIds.gpu.length ∧
    s.runner.inputsEmbeds.cpu.length = s.runner.inputIds.gpu.length ∧
    s.runner.inputsEmbeds.gpu.length = s.runner.inputIds.gpu.length ∧
    s.numScheduledTokens.sum ≤ s.runner.inputIds.gpu.length
  previous : s.batch.prevSampledTokenIds ≠ none → s.batch.prevReqIdToIndex ≠ none
  sampled : ∀ r p, s.prevIndex r = some p → ∃ ids, s.batch.prevSampledTokenIds = some ids ∧ p < ids.length
  common : ∀ r i n p, s.Scheduled r i n → s.prevIndex r = some p → n = s.draftLen r + 1
  drafts : ∀ r i n p, s.Scheduled r i n → s.prevIndex r = some p → s.draftLen r ≠ 0 →
    ∃ ids, s.runner.draftTokenIds = some (.tensor ids) ∧ (∀ row ∈ ids, row.length = s.runner.numSpecTokens) ∧
      p < ids.length ∧ s.draftLen r ≤ s.runner.numSpecTokens

def HasTokens (after : GPUModelRunner E) : Prop :=
  ∀ r i n, s.Scheduled r i n → ∀ j < n, after.inputIds.gpu[s.start i + j]? = s.token r i j

def HasMask (after : GPUModelRunner E) : Prop :=
  s.runner.enablePromptEmbeds = true → ∀ r i n, s.Scheduled r i n → ∀ j < n,
    after.isTokenIds.gpu[s.start i + j]? = s.mask i j

def numCommonTokens : Nat := s.batch.reqIdToIndex.items.countP fun request => (s.prevIndex request.1).isSome

def Unchanged : Prop :=
  0 < s.numCommonTokens ∧ ∀ r i n p, s.Scheduled r i n → s.prevIndex r = some p →
    p + 1 = s.start (i + 1) ∧ p < s.numCommonTokens

/-- In an unchanged batch the mask says token where a token was sampled. In a changed one with no request but common ones,
it says what it has said in the step before. -/
def MaskReady : Prop :=
  s.runner.enablePromptEmbeds = true →
    (s.Unchanged → ∀ r i n p, s.Scheduled r i n → s.prevIndex r = some p → s.mask i 0 = some true) ∧
    (¬ s.Unchanged → (∀ r i n, s.Scheduled r i n → s.prevIndex r ≠ none) → ∀ r i n, s.Scheduled r i n → ∀ j < n,
      s.runner.isTokenIds.gpu[s.start i + j]? = s.mask i j)

end Step

end Vllm.InputIds
