import Vllm.Scheduler

/-! `schedule()`: the loop over the running requests with preemption, the loop over the waiting
requests, and the scheduler output. -/

namespace Vllm

open BlockPool

structure NewRequestData where
  reqId : ReqId
  promptTokenIds : Option (List Token)
  mmFeatures : List MultiModalFeatureSpec
  samplingParams : Option SamplingParams
  poolingParams : Option PoolingParams
  blockIds : List (List BlockId)
  numComputedTokens : Int
  loraRequest : Option LoRARequest
  promptEmbeds : Option (List Bytes)
  prefillTokenIds : Option (List Token)

structure CachedRequestData where
  reqIds : List ReqId := []
  resumedReqIds : List ReqId := []
  newTokenIds : List (List Token) := []
  allTokenIds : Dict ReqId (List Token) := Dict.empty
  newBlockIds : List (Option (List (List BlockId))) := []
  numComputedTokens : List Int := []
  numOutputTokens : List Int := []

structure SchedulerOutput where
  scheduledNewReqs : List NewRequestData
  scheduledCachedReqs : CachedRequestData
  numScheduledTokens : Dict ReqId Int
  totalNumScheduledTokens : Int
  scheduledSpecDecodeTokens : Dict ReqId (List Token)
  scheduledEncoderInputs : Dict ReqId (List Nat)
  numCommonPrefixBlocks : List Nat
  preemptedReqIds : List ReqId
  finishedReqIds : List ReqId
  freeEncoderMmHashes : List String
  newBlockIdsToZero : Option (List BlockId)
  hasStructuredOutputRequests : Bool := false
  pendingStructuredOutputTokens : Bool := false

/-- The scheduler together with the local variables of `schedule()`. -/
structure Step where
  sched : Scheduler
  scheduledNewReqs : List Ref := []
  scheduledResumedReqs : List Ref := []
  scheduledRunningReqs : List Ref := []
  preemptedReqs : List Ref := []
  reqToNewBlocks : Dict ReqId (List (List BlockId)) := Dict.empty
  numScheduledTokens : Dict ReqId Int := Dict.empty
  tokenBudget : Int
  scheduledEncoderInputs : Dict ReqId (List Nat) := Dict.empty
  encoderComputeBudget : Int
  scheduledSpecDecodeTokens : Dict ReqId (List Token) := Dict.empty
  scheduledLoras : List Nat := []
  stepSkippedWaiting : List Ref := []
  /-- Not in the source: the requests that were scheduled in this call and then preempted, with
  their encoder inputs. -/
  unscheduled : List (Ref × List Nat) := []

namespace Step

open Scheduler

variable (c : SchedulerConfig) (env : Outside)

def withKv (st : Step) (kv : KVCacheManager) : Step := { st with sched := st.sched.withKv kv }

def withEncoder (st : Step) (encoder : EncoderCacheManager) : Step :=
  { st with sched := st.sched.withEncoder encoder }

/-- Async scheduling: the step in flight already reaches `max_tokens`. -/
def reachesMaxTokens (request : Request) : Bool :=
  request.numOutputPlaceholders > 0 ∧
    request.numComputedTokens + 2 - request.numOutputPlaceholders ≥
      (request.numPromptTokens : Int) + request.maxTokens

def runningNewTokens (st : Step) (request : Request) : Int :=
  let numNewTokens :=
    (request.numTokensWithSpec : Int) + request.numOutputPlaceholders - request.numComputedTokens
  let numNewTokens :=
    if 0 < c.longPrefillTokenThreshold ∧ (c.longPrefillTokenThreshold : Int) < numNewTokens then
      (c.longPrefillTokenThreshold : Int)
    else numNewTokens
  min (min numNewTokens st.tokenBudget) (c.kv.maxModelLen - 1 - request.numComputedTokens)

/-- `max(self.running, key=...)`: the first of the greatest. -/
def lowestPriority (s : Scheduler) : List Ref → Option Ref
  | [] => none
  | r :: rs => some (rs.foldl (fun best r =>
      let a := s.objs best
      let b := s.objs r
      if a.priority < b.priority ∨ (a.priority = b.priority ∧ a.arrivalTime < b.arrivalTime) then r
      else best) r)

def unschedule (st : Step) (r : Ref) : Result Step :=
  let request := st.sched.objs r
  match st.numScheduledTokens.get? request.requestId with
  | none => .error .keyError
  | some n =>
    if !st.reqToNewBlocks.contains request.requestId then .error .keyError
    else
      let inputs := st.scheduledEncoderInputs.getD request.requestId []
      .ok
        { st with
          scheduledRunningReqs := st.scheduledRunningReqs.erase r
          tokenBudget := st.tokenBudget + n
          numScheduledTokens := st.numScheduledTokens.erase request.requestId
          reqToNewBlocks := st.reqToNewBlocks.erase request.requestId
          scheduledSpecDecodeTokens := st.scheduledSpecDecodeTokens.erase request.requestId
          scheduledEncoderInputs := st.scheduledEncoderInputs.erase request.requestId
          encoderComputeBudget := st.encoderComputeBudget +
            (inputs.map fun i => (request.getNumEncoderEmbeds i : Int)).sum
          unscheduled := (r, inputs) :: st.unscheduled }

/-- The request to preempt, taken out of `running`, and the adjusted `req_index`. -/
def takeVictim (st : Step) (reqIndex : Nat) : Result (Ref × Nat × Step) :=
  match c.policy with
  | .priority =>
    match lowestPriority st.sched st.sched.running with
    | none => .error (.valueError "max() arg is an empty sequence")
    | some victim => do
      let st := { st with sched := { st.sched with running := st.sched.running.erase victim } }
      if victim ∈ st.scheduledRunningReqs then
        let st ← st.unschedule victim
        return (victim, reqIndex - 1, st)
      else return (victim, reqIndex, st)
  | .fcfs =>
    match st.sched.running.getLast? with
    | none => .error .indexError
    | some victim =>
      .ok (victim, reqIndex,
        { st with sched := { st.sched with running := st.sched.running.dropLast } })

def preempt (st : Step) (victim : Ref) : Result Step := do
  let sched ← preemptRequest c st.sched victim
  return { st with sched, preemptedReqs := st.preemptedReqs ++ [victim] }

/-- The inner `while True`: allocates slots, preempting requests until there are enough blocks. -/
def allocateOrPreempt (r : Ref) (numNewTokens : Int) :
    Nat → Nat → Step → Result (Option (List (List BlockId)) × Nat × Step)
  | 0, _, _ => .error (.runtimeError "out of fuel")
  | fuel + 1, reqIndex, st => do
    let (newBlocks, kv) ← st.sched.kvCacheManager.allocateSlots c.kv (st.sched.objs r) numNewTokens
      { numLookaheadTokens := c.numLookaheadTokens }
    let st := st.withKv kv
    match newBlocks with
    | some blocks => return (some blocks, reqIndex, st)
    | none =>
      let (victim, reqIndex, st) ← st.takeVictim c reqIndex
      let st ← st.preempt c victim
      if victim = r then return (none, reqIndex, st)
      else allocateOrPreempt r numNewTokens fuel reqIndex st

def allocateEncoder (request : Request) :
    List Nat → EncoderCacheManager → Result EncoderCacheManager
  | [], e => .ok e
  | i :: is, e => do
    let e ← e.allocate request i
    allocateEncoder request is e

/-- The encoder part of scheduling a request; the budget only changes with encoder inputs. -/
def scheduleEncoder (st : Step) (request : Request) (plan : EncoderPlan) : Result Step := do
  let e ← allocateEncoder request plan.encoderInputsToSchedule st.sched.encoderCacheManager
  let e ← allocateEncoder request plan.externalLoadEncoderInput e
  let st := st.withEncoder e
  if plan.encoderInputsToSchedule = [] then return st
  else
    return { st with
      scheduledEncoderInputs :=
        st.scheduledEncoderInputs.set request.requestId plan.encoderInputsToSchedule
      encoderComputeBudget := plan.encoderComputeBudget }

def scheduledDrafts (request : Request) (numNewTokens : Int) : List Token :=
  let numScheduledSpecTokens :=
    numNewTokens + request.numComputedTokens - request.numTokens - request.numOutputPlaceholders
  request.specTokenIds.take numScheduledSpecTokens.toNat

def scheduleRunningRequest (st : Step) (r : Ref) (numNewTokens : Int)
    (newBlocks : List (List BlockId)) (plan : EncoderPlan) : Result Step :=
  let request := st.sched.objs r
  let drafts := scheduledDrafts request numNewTokens
  let st :=
    { st with
      scheduledRunningReqs := st.scheduledRunningReqs ++ [r]
      reqToNewBlocks := st.reqToNewBlocks.set request.requestId newBlocks
      numScheduledTokens := st.numScheduledTokens.set request.requestId numNewTokens
      tokenBudget := st.tokenBudget - numNewTokens
      scheduledSpecDecodeTokens :=
        if drafts = [] then st.scheduledSpecDecodeTokens
        else st.scheduledSpecDecodeTokens.set request.requestId drafts
      sched := st.sched.modify r fun q => { q with specTokenIds := [] } }
  st.scheduleEncoder request plan

/-- One round of the loop over the running requests; the flag is false where the source breaks. -/
def visitRunning (st : Step) (reqIndex : Nat) (r : Ref) : Result (Bool × Nat × Step) :=
  let request := st.sched.objs r
  if reachesMaxTokens request then .ok (true, reqIndex + 1, st)
  else do
    let plan ← tryScheduleEncoderInputs c env st.sched request request.numComputedTokens
      (runningNewTokens c st request) st.encoderComputeBudget
    let st := st.withEncoder plan.encoder
    let numNewTokens ← alignedNewTokens c request plan.numNewTokens 0 0
    if numNewTokens = 0 then return (true, reqIndex + 1, st)
    else
      let (newBlocks, reqIndex, st) ←
        allocateOrPreempt c r numNewTokens (st.sched.running.length + 1) reqIndex st
      match newBlocks with
      | none => return (false, reqIndex, st)
      | some newBlocks =>
        let st ← st.scheduleRunningRequest r numNewTokens newBlocks plan
        return (true, reqIndex + 1, st)

def scheduleRunning : Nat → Nat → Step → Result Step
  | 0, _, st => .ok st
  | fuel + 1, reqIndex, st =>
    if st.tokenBudget > 0 then
      match st.sched.running[reqIndex]? with
      | none => .ok st
      | some r => do
        let (goOn, reqIndex, st) ← st.visitRunning c env reqIndex r
        if goOn then scheduleRunning fuel reqIndex st else return st
    else .ok st

def recordLoras (st : Step) : Result Step :=
  match c.maxLoras with
  | none => .ok st
  | some maxLoras => do
    let loras := (st.scheduledRunningReqs.filterMap fun r =>
      ((st.sched.objs r).loraRequest.map LoRARequest.loraIntId).filter (0 < ·)).dedup
    Result.ensure (loras.length ≤ maxLoras) "len(scheduled_loras) <= self.lora_config.max_loras"
    return { st with scheduledLoras := loras }

def selectsSkipped (s : Scheduler) : Bool :=
  match c.policy with
  | .fcfs => s.skippedWaiting ≠ []
  | .priority =>
    match RequestQueue.peekRequest s.waiting, RequestQueue.peekRequest s.skippedWaiting with
    | some waitingReq, some skippedReq => !s.lt waitingReq skippedReq
    | none, some _ => true
    | _, none => false

def popSelected (s : Scheduler) (skipped : Bool) : Result (Ref × Scheduler) :=
  match RequestQueue.popRequest c.policy s.lt (if skipped then s.skippedWaiting else s.waiting) with
  | none => .error .indexError
  | some (r, queue) =>
    .ok (r, if skipped then { s with skippedWaiting := queue } else { s with waiting := queue })

def skipSelected (st : Step) (skipped : Bool) : Result Step := do
  let (r, sched) ← popSelected c st.sched skipped
  return { st with
    sched
    stepSkippedWaiting := RequestQueue.prependRequest c.policy sched.lt st.stepSkippedWaiting r }

def updateWaitingForRemoteKv (s : Scheduler) (r : Ref) : Result Scheduler := do
  let request := s.objs r
  if request.requestId ∈ s.failedRecvingKvReqIds then
    let kv ←
      (if request.numComputedTokens ≠ 0 then
        s.kvCacheManager.cacheBlocks c.kv request request.numComputedTokens
      else pure (s.kvCacheManager.free request.requestId) : Result KVCacheManager)
    return { s.withKv kv with
      failedRecvingKvReqIds := s.failedRecvingKvReqIds.filter (· ≠ request.requestId)
      finishedRecvingKvReqIds := s.finishedRecvingKvReqIds.filter (· ≠ request.requestId) }
  else
    let kv ← s.kvCacheManager.cacheBlocks c.kv request request.numComputedTokens
    let numComputedTokens :=
      if request.numComputedTokens = request.numTokens then (request.numTokens : Int) - 1
      else request.numComputedTokens
    let s := s.modify r fun q =>
      { q with
        numComputedTokens
        numCachedTokens := if q.numCachedTokens < 0 then numComputedTokens else q.numCachedTokens }
    return { s.withKv kv with
      finishedRecvingKvReqIds := s.finishedRecvingKvReqIds.filter (· ≠ request.requestId) }

/-- `_try_promote_blocked_waiting_request`. -/
def tryPromote (s : Scheduler) (r : Ref) : Result (Bool × Scheduler) :=
  let request := s.objs r
  match request.status with
  | .waitingForRemoteKvs =>
    if request.requestId ∉ s.finishedRecvingKvReqIds then .ok (false, s)
    else do
      let s ← updateWaitingForRemoteKv c s r
      return (true, s.modify r fun q =>
        { q with status := if q.numPreemptions ≠ 0 then .preempted else .waiting })
  | .waitingForFsm =>
    if env.hasGrammar request.requestId then
      .ok (true, s.modify r fun q => { q with status := .waiting })
    else .ok (false, s)
  | .waitingForStreamingReq => do
    Result.ensure (request.streamingQueue = none ∨ request.streamingQueue = some [])
      "not request.streaming_queue"
    return (false, s)
  | _ => .error (.assertionError "Unexpected blocked waiting status in promotion")

structure ComputedPrefix where
  newComputedBlocks : List (List BlockId)
  numNewLocalComputedTokens : Int
  numExternalComputedTokens : Int
  numComputedTokens : Int
  loadKvAsync : Bool

/-- `none` where the connector cannot tell yet. -/
def computedPrefix (s : Scheduler) (r : Ref) : Result (Option ComputedPrefix × Scheduler) :=
  let request := s.objs r
  if request.numComputedTokens = 0 then do
    let (blocks, n) ← s.kvCacheManager.getComputedBlocks c.kv request
    if c.hasConnector then
      match env.getNumNewMatchedTokens request n with
      | (none, _) => return (none, s)
      | (some ext, loadKvAsync) =>
        Result.ensure (n + ext ≤ request.numTokens) "num_computed_tokens <= request.num_tokens"
        return (some ⟨blocks, n, ext, n + ext, loadKvAsync⟩,
          s.modify r fun q => { q with numExternalComputedTokens := ext })
    else
      Result.ensure (n ≤ request.numTokens) "num_computed_tokens <= request.num_tokens"
      return (some ⟨blocks, n, 0, n, false⟩, s)
  else .ok (some ⟨[], 0, 0, request.numComputedTokens, false⟩, s)

/-- How many tokens of a waiting request to schedule, with its encoder inputs; `none` where the
source breaks. -/
def planWaiting (st : Step) (request : Request) (pre : ComputedPrefix) :
    Result (Option EncoderPlan) :=
  let idle : EncoderPlan :=
    { encoder := st.sched.encoderCacheManager
      numNewTokens := 0
      encoderComputeBudget := st.encoderComputeBudget }
  if pre.loadKvAsync then do
    Result.ensure (pre.numExternalComputedTokens > 0) "num_external_computed_tokens > 0"
    return some idle
  else
    let numNewTokens := (request.numTokens : Int) - pre.numComputedTokens
    let numNewTokens :=
      if 0 < c.longPrefillTokenThreshold ∧ (c.longPrefillTokenThreshold : Int) < numNewTokens then
        (c.longPrefillTokenThreshold : Int)
      else numNewTokens
    if !c.enableChunkedPrefill ∧ numNewTokens > st.tokenBudget then .ok none
    else do
      let numNewTokens := min numNewTokens st.tokenBudget
      Result.ensure (numNewTokens > 0) "num_new_tokens > 0"
      let plan ← tryScheduleEncoderInputs c env st.sched request pre.numComputedTokens numNewTokens
        st.encoderComputeBudget
      return some plan

def admitRequest (st : Step) (skipped : Bool) (numNewTokens : Int) (pre : ComputedPrefix)
    (plan : EncoderPlan) : Result Step := do
  let (r, sched) ← popSelected c st.sched skipped
  let request := sched.objs r
  let st := { st with sched := { sched with running := sched.running ++ [r] } }
  let st ←
    (match request.status with
    | .waiting => .ok { st with scheduledNewReqs := st.scheduledNewReqs ++ [r] }
    | .preempted => .ok { st with scheduledResumedReqs := st.scheduledResumedReqs ++ [r] }
    | _ => .error (.runtimeError "Invalid request status") : Result Step)
  let st :=
    { st with
      scheduledLoras :=
        match c.maxLoras, request.loraRequest with
        | some _, some lora => st.scheduledLoras.insert lora.loraIntId
        | _, _ => st.scheduledLoras
      reqToNewBlocks := st.reqToNewBlocks.set request.requestId
        (st.sched.kvCacheManager.getBlockIds request.requestId)
      numScheduledTokens := st.numScheduledTokens.set request.requestId numNewTokens
      tokenBudget := st.tokenBudget - numNewTokens
      sched := st.sched.modify r fun q =>
        { q with
          status := .running
          numComputedTokens := pre.numComputedTokens
          numCachedTokens :=
            if q.numCachedTokens < 0 then pre.numComputedTokens else q.numCachedTokens } }
  st.scheduleEncoder request plan

def startLoad (st : Step) (skipped : Bool) (pre : ComputedPrefix) : Result Step := do
  let (r, sched) ← popSelected c st.sched skipped
  let sched := sched.modify r fun q => { q with status := .waitingForRemoteKvs }
  let st := { st with
    sched
    stepSkippedWaiting := RequestQueue.prependRequest c.policy sched.lt st.stepSkippedWaiting r }
  return { st with
    sched := st.sched.modify r fun q => { q with numComputedTokens := pre.numComputedTokens } }

def numEncoderTokens (request : Request) (plan : EncoderPlan) : Int :=
  if c.isEncoderDecoder then
    (plan.encoderInputsToSchedule.map fun i => (request.getNumEncoderEmbeds i : Int)).sum
  else 0

def waitingArgs (request : Request) (pre : ComputedPrefix) (plan : EncoderPlan) :
    KVCacheManager.SlotArgs where
  numNewComputedTokens := pre.numNewLocalComputedTokens
  newComputedBlocks := pre.newComputedBlocks
  numLookaheadTokens := if request.numComputedTokens = 0 then 0 else c.numLookaheadTokens
  numExternalComputedTokens := pre.numExternalComputedTokens
  delayCacheBlocks := pre.loadKvAsync
  numEncoderTokens := numEncoderTokens c request plan

def placeWaiting (st : Step) (skipped : Bool) (r : Ref) (numNewTokens : Int)
    (pre : ComputedPrefix) (plan : EncoderPlan) : Result (Bool × Step) := do
  let request := st.sched.objs r
  let (newBlocks, kv) ← st.sched.kvCacheManager.allocateSlots c.kv request numNewTokens
    (waitingArgs c request pre plan)
  let st := st.withKv kv
  match newBlocks with
  | none =>
    return (false,
      if request.hasEncoderInputs then
        st.withEncoder (st.sched.encoderCacheManager.free request)
      else st)
  | some _ =>
    if pre.loadKvAsync then
      let st ← st.startLoad c skipped pre
      return (true, st)
    else
      let st ← st.admitRequest c skipped numNewTokens pre plan
      return (true, st)

def exceedsLoras (st : Step) (request : Request) : Bool :=
  match c.maxLoras, request.loraRequest with
  | some maxLoras, some lora =>
    st.scheduledLoras.length = maxLoras ∧ lora.loraIntId ∉ st.scheduledLoras
  | _, _ => false

def tryWaiting (st : Step) (skipped : Bool) (r : Ref) : Result (Bool × Step) := do
  let (pre, sched) ← computedPrefix c env st.sched r
  let st := { st with sched }
  match pre with
  | none =>
    let st ← st.skipSelected c skipped
    return (true, st)
  | some pre =>
    let request := st.sched.objs r
    let plan ← planWaiting c env st request pre
    match plan with
    | none => return (false, st)
    | some plan =>
      let st := st.withEncoder plan.encoder
      if !pre.loadKvAsync && request.hasEncoderInputs && plan.numNewTokens == 0 then
        return (false, st)
      else
        let numNewTokens ← alignedNewTokens c request plan.numNewTokens
          pre.numNewLocalComputedTokens pre.numExternalComputedTokens
        if c.needMambaBlockAlignedSplit && numNewTokens == 0 then return (false, st)
        else st.placeWaiting c skipped r numNewTokens pre plan

/-- One round of the loop over the waiting requests; the flag is false where the source breaks. -/
def visitWaiting (st : Step) : Result (Bool × Step) :=
  let skipped := selectsSkipped c st.sched
  match RequestQueue.peekRequest
    (if skipped then st.sched.skippedWaiting else st.sched.waiting) with
  | none => .error (.assertionError "request_queue is not None")
  | some r => do
    let (ready, sched) ←
      (if isBlockedWaitingStatus (st.sched.objs r).status then tryPromote c env st.sched r
      else .ok (true, st.sched) : Result (Bool × Scheduler))
    let st := { st with sched }
    if !ready || st.exceedsLoras c (st.sched.objs r) then
      let st ← st.skipSelected c skipped
      return (true, st)
    else st.tryWaiting c env skipped r

def scheduleWaiting : Nat → Step → Result Step
  | 0, st => .ok st
  | fuel + 1, st =>
    if (st.sched.waiting ≠ [] ∨ st.sched.skippedWaiting ≠ []) ∧ st.tokenBudget > 0 ∧
        st.sched.running.length ≠ c.maxNumRunningReqs then do
      let (goOn, st) ← st.visitWaiting c env
      if goOn then scheduleWaiting fuel st else return st
    else .ok st

def requeueSkipped (st : Step) : Step :=
  { st with
    sched := { st.sched with
      skippedWaiting := RequestQueue.prependRequests c.policy st.sched.lt st.sched.skippedWaiting
        st.stepSkippedWaiting }
    stepSkippedWaiting := [] }

def checkConstraints (st : Step) : Result PUnit.{1} := do
  Result.ensure (st.numScheduledTokens.values.sum ≤ c.maxNumScheduledTokens)
    "total_num_scheduled_tokens <= self.max_num_scheduled_tokens"
  Result.ensure (st.tokenBudget ≥ 0) "token_budget >= 0"
  Result.ensure (st.sched.running.length ≤ c.maxNumRunningReqs)
    "len(self.running) <= self.max_num_running_reqs"
  Result.ensure (st.scheduledNewReqs.length + st.scheduledResumedReqs.length +
    st.scheduledRunningReqs.length ≤ st.sched.running.length) "len(scheduled_new_reqs)"

/-- `schedule()` up to the assertions. -/
def scheduleRequests (s : Scheduler) : Result Step := do
  let st : Step :=
    { sched := s.withKv s.kvCacheManager.newStepStarts
      tokenBudget := if s.pauseState = .pausedAll then 0 else c.maxNumScheduledTokens
      encoderComputeBudget := c.maxNumEncoderInputTokens }
  let st ← st.scheduleRunning c env (s.running.length + 1) 0
  let st ← st.recordLoras c
  if st.preemptedReqs = [] ∧ s.pauseState = .unpaused then
    let st ← st.scheduleWaiting c env (st.sched.waiting.length + st.sched.skippedWaiting.length + 1)
    return st.requeueSkipped c
  else return st

def newBlocksOf (st : Step) (r : Ref) : Result (List (List BlockId)) :=
  match st.reqToNewBlocks.get? (st.sched.objs r).requestId with
  | none => .error .keyError
  | some blocks => .ok blocks

def newRequestData (st : Step) (r : Ref) : Result NewRequestData := do
  let request := st.sched.objs r
  let blockIds ← st.newBlocksOf r
  return {
    reqId := request.requestId
    promptTokenIds := request.promptTokenIds
    mmFeatures := request.mmFeatures
    samplingParams := request.samplingParams
    poolingParams := request.poolingParams
    blockIds
    numComputedTokens := request.numComputedTokens
    loraRequest := request.loraRequest
    promptEmbeds := request.promptEmbeds
    prefillTokenIds := if c.useV2ModelRunner then some request.allTokenIds else none }

/-- The loop of `_make_cached_request_data`. -/
def addCachedRequest (st : Step) (resumed : Bool) (data : CachedRequestData) (r : Ref) :
    Result CachedRequestData := do
  let request := st.sched.objs r
  let reqId := request.requestId
  let scheduledInPrevStep := reqId ∈ st.sched.prevStepScheduledReqIds
  Result.ensure (¬ (resumed ∧ scheduledInPrevStep)) "not scheduled_in_prev_step"
  let newBlocks ← st.newBlocksOf r
  let numTokens := st.numScheduledTokens.getD reqId 0 -
    (st.scheduledSpecDecodeTokens.getD reqId []).length
  return {
    reqIds := data.reqIds ++ [reqId]
    resumedReqIds := if resumed then data.resumedReqIds ++ [reqId] else data.resumedReqIds
    newTokenIds :=
      if c.usePp ∧ !c.asyncScheduling then
        data.newTokenIds ++ [Py.slice request.allTokenIds request.numComputedTokens
          (request.numComputedTokens + numTokens)]
      else data.newTokenIds
    allTokenIds :=
      if scheduledInPrevStep then data.allTokenIds
      else data.allTokenIds.set reqId request.allTokenIds
    newBlockIds := data.newBlockIds ++ [if newBlocks.all (· = []) then none else some newBlocks]
    numComputedTokens := data.numComputedTokens ++ [request.numComputedTokens]
    numOutputTokens := data.numOutputTokens ++
      [(request.numOutputTokens : Int) + request.numOutputPlaceholders] }

def makeCachedRequestData (st : Step) (runningReqs resumedReqs : List Ref) :
    Result CachedRequestData := do
  let data ← runningReqs.foldlM (st.addCachedRequest c false) {}
  resumedReqs.foldlM (st.addCachedRequest c true) data

def commonPrefixBlocks (s : Scheduler) : List Nat × Scheduler :=
  match s.running with
  | [] => (c.kv.kvCacheGroups.map fun _ => 0, s)
  | r :: _ =>
    let (ns, kv) := s.kvCacheManager.getNumCommonPrefixBlocks c.kv (s.objs r).requestId
    (ns, s.withKv kv)

def takeBlocksToZero (s : Scheduler) : Option (List BlockId) × Scheduler :=
  if c.needsKvCacheZeroing then
    let (ids, kv) := s.kvCacheManager.takeNewBlockIds
    (if ids = [] then none else some ids, s.withKv kv)
  else (none, s)

def makeOutput (st : Step) : Result (SchedulerOutput × Scheduler) := do
  st.checkConstraints c
  let (numCommonPrefixBlocks, sched) := commonPrefixBlocks c st.sched
  let st := { st with sched }
  let (newReqs, resumedReqs) :=
    if c.useV2ModelRunner then (st.scheduledNewReqs ++ st.scheduledResumedReqs, [])
    else (st.scheduledNewReqs, st.scheduledResumedReqs)
  let scheduledNewReqs ← newReqs.mapM (st.newRequestData c)
  let scheduledCachedReqs ← st.makeCachedRequestData c st.scheduledRunningReqs resumedReqs
  let (newBlockIdsToZero, sched) := takeBlocksToZero c
    { st.sched with prevStepScheduledReqIds := st.numScheduledTokens.keys }
  let (freeEncoderMmHashes, encoder) := sched.encoderCacheManager.getFreedMmHashes
  return ({
    scheduledNewReqs
    scheduledCachedReqs
    numScheduledTokens := st.numScheduledTokens
    totalNumScheduledTokens := st.numScheduledTokens.values.sum
    scheduledSpecDecodeTokens := st.scheduledSpecDecodeTokens
    scheduledEncoderInputs := st.scheduledEncoderInputs
    numCommonPrefixBlocks
    preemptedReqIds := st.preemptedReqs.map fun r => (sched.objs r).requestId
    finishedReqIds := sched.finishedReqIds
    freeEncoderMmHashes
    newBlockIdsToZero }, sched.withEncoder encoder)

end Step

namespace Scheduler

variable (c : SchedulerConfig)

def freeEncoderInputs (e : EncoderCacheManager) (request : Request) : EncoderCacheManager :=
  (e.getCachedInputIds request).foldl (fun e inputId =>
    match request.mmFeatures[inputId]? with
    | none => e
    | some f =>
      if (c.isEncoderDecoder ∧ request.numComputedTokens > 0) ∨
          (f.mmPosition.offset : Int) + f.mmPosition.length ≤ request.numComputedTokens then
        e.freeEncoderInput request inputId
      else e) e

def advance (n : Int) (request : Request) : Request :=
  let numComputedTokens := request.numComputedTokens + n
  { request with
    numComputedTokens
    isPrefillChunk :=
      numComputedTokens < (request.numTokens : Int) + request.numOutputPlaceholders }

def advanceRequest (s : Scheduler) (r : Ref) (n : Int) : Scheduler :=
  let s := s.modify r (advance n)
  let request := s.objs r
  if request.hasEncoderInputs then
    s.withEncoder (freeEncoderInputs c s.encoderCacheManager request)
  else s

def advanceRequests (o : SchedulerOutput) :
    List (ReqId × Int) → Scheduler → Result (SchedulerOutput × Scheduler)
  | [], s => .ok (o, s)
  | (reqId, n) :: rest, s =>
    match s.requests.get? reqId with
    | none => .error .keyError
    | some r =>
      let s := s.advanceRequest c r n
      let request := s.objs r
      advanceRequests
        { o with
          hasStructuredOutputRequests := o.hasStructuredOutputRequests ||
            (request.useStructuredOutput && !request.isPrefillChunk) } rest s

/-- The placeholders `AsyncScheduler` adds for the tokens a step will report. -/
def addPlaceholders (numDrafts : Nat) (request : Request) : Request :=
  if request.isPrefillChunk then request
  else
    { request with
      numOutputPlaceholders := request.numOutputPlaceholders + (1 + numDrafts)
      specTokenIds := List.replicate c.numSpecTokens (-1) }

/-- `AsyncScheduler._update_after_schedule` after its super call. -/
def reservePlaceholders (o : SchedulerOutput) :
    List ReqId → Scheduler → Result (SchedulerOutput × Scheduler)
  | [], s => .ok (o, s)
  | reqId :: rest, s =>
    match s.requests.get? reqId with
    | none => .error .keyError
    | some r =>
      let request := s.objs r
      reservePlaceholders
        { o with
          pendingStructuredOutputTokens := o.pendingStructuredOutputTokens ||
            (!request.isPrefillChunk && request.useStructuredOutput &&
              decide (request.numOutputPlaceholders > 0)) }
        rest (s.modify r (addPlaceholders c (o.scheduledSpecDecodeTokens.getD reqId []).length))

def updateAfterSchedule (o : SchedulerOutput) (s : Scheduler) :
    Result (SchedulerOutput × Scheduler) := do
  let (o, s) ← advanceRequests c o o.numScheduledTokens.items s
  let s := { s with finishedReqIds := [] }
  if c.asyncScheduling then reservePlaceholders c o o.numScheduledTokens.keys s
  else return (o, s)

def schedule (env : Outside) (s : Scheduler) : Result (SchedulerOutput × Scheduler) := do
  let st ← Step.scheduleRequests c env s
  let (o, s) ← st.makeOutput c
  updateAfterSchedule c o s

end Scheduler

end Vllm
