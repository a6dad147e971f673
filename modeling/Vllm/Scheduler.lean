import Vllm.EncoderCacheManager
import Vllm.KVCacheManager
import Vllm.RequestQueue
import Vllm.Session

/-! The state of the scheduler and the primitive steps of `schedule()`. Requests are objects: queues
and dictionaries hold references to them. -/

namespace Vllm

inductive PauseState
  | unpaused
  | pausedNew
  | pausedAll
  deriving DecidableEq, Repr

structure SchedulerConfig where
  kv : KVCacheManagerConfig
  policy : SchedulingPolicy
  maxNumRunningReqs : Nat
  maxNumScheduledTokens : Nat
  longPrefillTokenThreshold : Nat := 0
  enableChunkedPrefill : Bool := true
  disableChunkedMmInput : Bool := false
  maxNumEncoderInputTokens : Nat := 0
  encoderCacheSize : Nat := 0
  isEncoderDecoder : Bool := false
  maxLoras : Option Nat := none
  numSpecTokens : Nat := 0
  numLookaheadTokens : Nat := 0
  cacheBlockSize : Nat := 16
  needMambaBlockAlignedSplit : Bool := false
  needsKvCacheZeroing : Bool := false
  hasConnector : Bool := false
  recomputeKvLoadFailures : Bool := true
  usePp : Bool := false
  useV2ModelRunner : Bool := false
  asyncScheduling : Bool := false
  blockHasher : Option BlockHasher := none

/-- What the connectors and the structured output manager answer during one call. -/
structure Outside where
  getNumNewMatchedTokens : Request → Int → Option Int × Bool := fun _ _ => (some 0, false)
  hasGrammar : ReqId → Bool := fun _ => false
  hasCacheItem : String → Bool := fun _ => false
  /-- `request_finished`: whether the blocks are still being sent. -/
  requestFinished : Request → Bool := fun _ => false

structure Scheduler where
  objs : Ref → Request
  nextRef : Ref
  requests : Dict ReqId Ref
  waiting : List Ref
  skippedWaiting : List Ref
  running : List Ref
  finishedReqIds : List ReqId
  numWaitingForStreamingInput : Int
  finishedRecvingKvReqIds : List ReqId
  failedRecvingKvReqIds : List ReqId
  prevStepScheduledReqIds : List ReqId
  kvCacheManager : KVCacheManager
  encoderCacheManager : EncoderCacheManager
  pauseState : PauseState

namespace Scheduler

def init (c : SchedulerConfig) : Scheduler where
  objs _ := { requestId := "" }
  nextRef := 0
  requests := Dict.empty
  waiting := []
  skippedWaiting := []
  running := []
  finishedReqIds := []
  numWaitingForStreamingInput := 0
  finishedRecvingKvReqIds := []
  failedRecvingKvReqIds := []
  prevStepScheduledReqIds := []
  kvCacheManager := c.kv.init
  encoderCacheManager := EncoderCacheManager.init c.isEncoderDecoder c.encoderCacheSize
  pauseState := .unpaused

def modify (s : Scheduler) (r : Ref) (f : Request → Request) : Scheduler :=
  { s with objs := Function.update s.objs r (f (s.objs r)) }

def withKv (s : Scheduler) (kvCacheManager : KVCacheManager) : Scheduler := { s with kvCacheManager }

def withEncoder (s : Scheduler) (encoderCacheManager : EncoderCacheManager) : Scheduler :=
  { s with encoderCacheManager }

def lt (s : Scheduler) (a b : Ref) : Bool := (s.objs a).lt (s.objs b) (a < b)

def isBlockedWaitingStatus : RequestStatus → Bool
  | .waitingForFsm | .waitingForRemoteKvs | .waitingForStreamingReq => true
  | _ => false

def enqueueWaitingRequest (c : SchedulerConfig) (s : Scheduler) (r : Ref) : Scheduler :=
  if isBlockedWaitingStatus (s.objs r).status then
    { s with skippedWaiting := RequestQueue.addRequest c.policy s.lt s.skippedWaiting r }
  else { s with waiting := RequestQueue.addRequest c.policy s.lt s.waiting r }

/-- The fields `_preempt_request` sets. -/
def markPreempted (request : Request) : Request :=
  { request with
    status := .preempted
    numComputedTokens := 0
    specTokenIds := []
    numPreemptions := request.numPreemptions + 1 }

def preemptRequest (c : SchedulerConfig) (s : Scheduler) (r : Ref) : Result Scheduler := do
  let request := s.objs r
  Result.ensure (request.status = .running) "Only running requests can be preempted"
  let s := { s with
    kvCacheManager := s.kvCacheManager.free request.requestId
    encoderCacheManager := s.encoderCacheManager.free request }
  let s := s.modify r markPreempted
  return { s with waiting := RequestQueue.prependRequest c.policy s.lt s.waiting r }

def updateRequestAsSession (c : SchedulerConfig) (s : Scheduler) (r : Ref)
    (update : StreamingUpdate) : Result Scheduler :=
  match (s.objs r).updateAsSession c.blockHasher update with
  | none => .error (.assertionError "session.prompt_token_ids is not None")
  | some session =>
    .ok
      { s.modify r fun _ => session with
        numWaitingForStreamingInput :=
          if (s.objs r).status = .waitingForStreamingReq then s.numWaitingForStreamingInput - 1
          else s.numWaitingForStreamingInput }

def mambaBlockAlignedSplit (c : SchedulerConfig) (request : Request)
    (numNewTokens numNewLocalComputedTokens numExternalComputedTokens : Int) : Result Int := do
  Result.ensure (numExternalComputedTokens = 0) "External KV connector is not verified yet"
  let numComputedTokens :=
    request.numComputedTokens + numNewLocalComputedTokens + numExternalComputedTokens
  if numComputedTokens < max (request.numPromptTokens : Int) (request.numTokens - 1) then
    let blockSize : Int := c.cacheBlockSize
    let lastCachePosition := (request.numTokens : Int) - request.numTokens % blockSize
    let lastCachePosition :=
      if c.kv.useEagle then max (lastCachePosition - blockSize) 0 else lastCachePosition
    let numComputedTokensAfterSched := numComputedTokens + numNewTokens
    if numComputedTokensAfterSched < lastCachePosition then
      return numNewTokens / blockSize * blockSize
    else if numComputedTokens < lastCachePosition ∧
        lastCachePosition < numComputedTokensAfterSched then
      return lastCachePosition - numComputedTokens
    else return numNewTokens
  else return numNewTokens

/-- `_mamba_block_aligned_split` where it applies. -/
def alignedNewTokens (c : SchedulerConfig) (request : Request)
    (numNewTokens numNewLocalComputedTokens numExternalComputedTokens : Int) : Result Int :=
  if c.needMambaBlockAlignedSplit then
    mambaBlockAlignedSplit c request numNewTokens numNewLocalComputedTokens
      numExternalComputedTokens
  else .ok numNewTokens

end Scheduler

/-- The accumulators of `_try_schedule_encoder_inputs`. -/
structure EncoderPlan where
  encoder : EncoderCacheManager
  numNewTokens : Int
  encoderComputeBudget : Int
  encoderInputsToSchedule : List Nat := []
  externalLoadEncoderInput : List Nat := []
  mmHashesToSchedule : List String := []
  numEmbedsToSchedule : Int := 0

namespace EncoderPlan

def addItem (c : SchedulerConfig) (hasCacheItem : String → Bool) (request : Request)
    (numComputedTokens shiftComputedTokens : Int) (f : MultiModalFeatureSpec) (i : Nat)
    (plan : EncoderPlan) : Result (Bool × EncoderPlan) :=
  let startPos : Int := f.mmPosition.offset
  let numEncoderTokens : Int := f.mmPosition.length
  let numEncoderEmbeds : Int := f.mmPosition.getNumEmbeds
  if c.disableChunkedMmInput ∧ numComputedTokens < startPos ∧
      numComputedTokens + plan.numNewTokens < startPos + numEncoderTokens then
    .ok (false,
      { plan with numNewTokens := max 0 (startPos - (numComputedTokens + shiftComputedTokens)) })
  else do
    let (fits, encoder) ← plan.encoder.canAllocate request i plan.encoderComputeBudget
      plan.numEmbedsToSchedule
    let plan := { plan with encoder }
    if !fits then
      return (false,
        { plan with
          numNewTokens :=
            if numComputedTokens + shiftComputedTokens < startPos then
              startPos - (numComputedTokens + shiftComputedTokens)
            else 0 })
    else
      let startIdxRel := max 0 (numComputedTokens - startPos)
      let endIdxRel := min numEncoderTokens (numComputedTokens + plan.numNewTokens - startPos)
      match f.mmPosition.getEmbedsIndicesInRange startIdxRel endIdxRel with
      | none => throw .indexError
      | some (currEmbedsStart, currEmbedsEnd) =>
        if currEmbedsEnd - currEmbedsStart = 0 then return (true, plan)
        else if hasCacheItem f.identifier then
          return (true,
            { plan with
              mmHashesToSchedule := f.identifier :: plan.mmHashesToSchedule
              externalLoadEncoderInput := plan.externalLoadEncoderInput ++ [i]
              numEmbedsToSchedule := plan.numEmbedsToSchedule + numEncoderEmbeds })
        else
          return (true,
            { plan with
              numEmbedsToSchedule := plan.numEmbedsToSchedule + numEncoderEmbeds
              encoderComputeBudget := plan.encoderComputeBudget - numEncoderEmbeds
              mmHashesToSchedule := f.identifier :: plan.mmHashesToSchedule
              encoderInputsToSchedule := plan.encoderInputsToSchedule ++ [i] })

/-- The body of the loop; the flag is false where the source breaks. -/
def visitItem (c : SchedulerConfig) (hasCacheItem : String → Bool) (request : Request)
    (numComputedTokens shiftComputedTokens : Int) (f : MultiModalFeatureSpec) (i : Nat)
    (plan : EncoderPlan) : Result (Bool × EncoderPlan) :=
  let startPos : Int := f.mmPosition.offset
  if startPos ≥ numComputedTokens + plan.numNewTokens + shiftComputedTokens then .ok (false, plan)
  else if c.isEncoderDecoder ∧ numComputedTokens > 0 then do
    Result.ensure (startPos = 0)
      "Encoder input should be processed at the beginning of the sequence when encoder-decoder models are used."
    return (true, plan)
  else if startPos + f.mmPosition.length ≤ numComputedTokens then .ok (true, plan)
  else if !c.isEncoderDecoder && plan.mmHashesToSchedule.contains f.identifier then .ok (true, plan)
  else do
    let (hit, encoder) ← plan.encoder.checkAndUpdateCache request f.identifier
    let plan := { plan with encoder }
    if hit then return (true, plan)
    else addItem c hasCacheItem request numComputedTokens shiftComputedTokens f i plan

def visitItems (c : SchedulerConfig) (hasCacheItem : String → Bool) (request : Request)
    (numComputedTokens shiftComputedTokens : Int) :
    List MultiModalFeatureSpec → Nat → EncoderPlan → Result EncoderPlan
  | [], _, plan => .ok plan
  | f :: fs, i, plan => do
    let (goOn, plan) ←
      visitItem c hasCacheItem request numComputedTokens shiftComputedTokens f i plan
    if goOn then
      visitItems c hasCacheItem request numComputedTokens shiftComputedTokens fs (i + 1) plan
    else return plan

end EncoderPlan

namespace Scheduler

def tryScheduleEncoderInputs (c : SchedulerConfig) (env : Outside) (s : Scheduler)
    (request : Request) (numComputedTokens numNewTokens encoderComputeBudget : Int) :
    Result EncoderPlan :=
  let plan : EncoderPlan := { encoder := s.encoderCacheManager, numNewTokens, encoderComputeBudget }
  if numNewTokens = 0 ∨ !request.hasEncoderInputs then .ok plan
  else
    EncoderPlan.visitItems c env.hasCacheItem request numComputedTokens
      (if c.kv.useEagle then 1 else 0) request.mmFeatures 0 plan

end Scheduler

end Vllm
