import Vllm.Schedule

/-! `update_from_output()` and the operations from outside: adding and finishing requests, resetting
the prefix cache. -/

namespace Vllm

def RequestStatus.getFinishedReason : RequestStatus → Option FinishReason
  | .finishedStopped => some .stop
  | .finishedLengthCapped => some .length
  | .finishedAborted => some .abort
  | .finishedIgnored => some .length
  | .finishedError => some .error
  | .waitingForStreamingReq => some .stop
  | .finishedRepetition => some .repetition
  | _ => none

structure EngineCoreOutput where
  requestId : ReqId
  newTokenIds : List Token
  finishReason : Option FinishReason
  stopReason : Option StopReason
  numCachedTokens : Int
  numExternalComputedTokens : Int

structure KVConnectorOutput where
  invalidBlockIds : List BlockId := []
  finishedRecving : List ReqId := []
  finishedSending : List ReqId := []

structure ModelRunnerOutput where
  sampledTokenIds : ReqId → List Token
  hasPoolerOutput : ReqId → Bool := fun _ => false
  kvConnectorOutput : Option KVConnectorOutput := none

def hasRepeatingPattern (tokenIds : List Token) (patternLen minCount : Nat) : Bool :=
  (List.range patternLen).all fun n => (List.range (minCount - 1)).all fun m =>
    tokenIds.reverse[patternLen * (m + 1) + n]? == tokenIds.reverse[n]?

def repeatsFrom (tokenIds : List Token) (minCount : Nat) : Nat → Nat → Bool
  | 0, _ => false
  | fuel + 1, patternLen =>
    if patternLen * minCount > tokenIds.length then false
    else if hasRepeatingPattern tokenIds patternLen minCount then true
    else repeatsFrom tokenIds minCount fuel (patternLen + 1)

def checkSequenceRepetition (tokenIds : List Token) (params : RepetitionDetectionParams) : Bool :=
  let minPatternSize := if params.minPatternSize ≤ 0 then 1 else params.minPatternSize
  if params.maxPatternSize ≤ 0 ∨ params.minCount < 2 ∨ minPatternSize > params.maxPatternSize then
    false
  else
    repeatsFrom tokenIds params.minCount.toNat (params.maxPatternSize + 1 - minPatternSize).toNat
      minPatternSize.toNat

def checkStop (maxModelLen : Nat) (request : Request) : Result (Bool × Request) := do
  Result.ensure (request.poolingParams = none) "not request.pooling_params"
  match request.samplingParams with
  | none => throw (.assertionError "sampling_params is not None")
  | some params =>
    if request.numOutputTokens < params.minTokens then return (false, request)
    else
      match request.outputTokenIds.getLast? with
      | none => throw .indexError
      | some lastTokenId =>
        if some lastTokenId = params.eosTokenId then
          return (true, { request with status := .finishedStopped })
        else if lastTokenId ∈ params.stopTokenIds then
          return (true,
            { request with status := .finishedStopped, stopReason := some (.token lastTokenId) })
        else if request.numTokens ≥ maxModelLen ∨ request.numOutputTokens ≥ request.maxTokens then
          return (true, { request with status := .finishedLengthCapped })
        else
          match params.repetitionDetection with
          | none => return (false, request)
          | some detection =>
            if checkSequenceRepetition request.outputTokenIds detection then
              return (true,
                { request with
                  status := .finishedRepetition
                  stopReason := some (.text "repetition_detected") })
            else return (false, request)

/-- `Scheduler._update_request_with_output`: the tokens that are kept, whether the request stopped,
and the request. -/
def appendUntilStop (c : SchedulerConfig) :
    List Token → Request → Result (List Token × Bool × Request)
  | [], request => .ok ([], false, request)
  | tokenId :: tokenIds, request => do
    let (stopped, request) ←
      checkStop c.kv.maxModelLen (request.appendOutputTokenIds c.blockHasher [tokenId])
    if stopped then return ([tokenId], true, request)
    else
      let (kept, stopped, request) ← appendUntilStop c tokenIds request
      return (tokenId :: kept, stopped, request)

def removeAll (l items : List Ref) : List Ref :=
  match items with
  | [] => l
  | [item] => l.erase item
  | _ => l.filter (· ∉ items)

namespace Scheduler

variable (c : SchedulerConfig) (env : Outside)

def updateRequestWithOutput (s : Scheduler) (r : Ref) (newTokenIds : List Token) :
    Result (List Token × Bool × Scheduler) :=
  let request := s.objs r
  if c.asyncScheduling then
    if request.discardLatestAsyncTokens then
      .ok ([], false, s.modify r fun q => { q with discardLatestAsyncTokens := false })
    else do
      let (kept, stopped, updated) ← appendUntilStop c newTokenIds request
      let updated :=
        { updated with numOutputPlaceholders := updated.numOutputPlaceholders - kept.length }
      Result.ensure (updated.numOutputPlaceholders ≥ 0) "request.num_output_placeholders >= 0"
      let s := s.modify r fun _ => updated
      if request.status = .running then
        let kv ← s.kvCacheManager.cacheBlocks c.kv updated
          (updated.numComputedTokens - updated.numOutputPlaceholders)
        return (kept, stopped, s.withKv kv)
      else return (kept, stopped, s)
  else do
    let (kept, stopped, updated) ← appendUntilStop c newTokenIds request
    return (kept, stopped, s.modify r fun _ => updated)

def handleStoppedRequest (s : Scheduler) (r : Ref) : Result (Bool × Scheduler) :=
  let request := s.objs r
  if !request.resumable then .ok (true, s)
  else
    match request.streamingQueue with
    | some (update :: queue) => do
      let s := s.modify r fun q => { q with streamingQueue := some queue }
      match update with
      | none => return (true, s)
      | some update =>
        let s ← updateRequestAsSession c s r update
        return (false, enqueueWaitingRequest c s r)
    | _ =>
      let s := s.modify r fun q => { q with status := .waitingForStreamingReq }
      let s := { s with numWaitingForStreamingInput := s.numWaitingForStreamingInput + 1 }
      .ok (false, enqueueWaitingRequest c s r)

def freeBlocks (s : Scheduler) (r : Ref) : Result Scheduler := do
  let request := s.objs r
  Result.ensure request.isFinished "request.is_finished()"
  return { s with
    kvCacheManager := s.kvCacheManager.free request.requestId
    requests := s.requests.erase request.requestId }

def connectorFinished (s : Scheduler) (request : Request) : Result (Bool × Scheduler) :=
  if c.hasConnector then do
    let kv ← s.kvCacheManager.removeSkippedBlocks request.requestId request.numTokens
    return (env.requestFinished request, s.withKv kv)
  else .ok (false, s)

def freeRequest (s : Scheduler) (r : Ref) (delayFreeBlocks : Bool) : Result Scheduler := do
  let request := s.objs r
  Result.ensure request.isFinished "request.is_finished()"
  let (connectorDelay, s) ← connectorFinished c env s request
  let s := { s with
    encoderCacheManager := s.encoderCacheManager.free request
    finishedReqIds := s.finishedReqIds.insert request.requestId }
  if delayFreeBlocks || connectorDelay then return s
  else s.freeBlocks r

def unfinishedOf (s : Scheduler) (reqIds : List ReqId) : List Ref :=
  (reqIds.filterMap fun id => s.requests.get? id).filter fun r => !(s.objs r).isFinished

/-- The second pass of `finish_requests` for one request. -/
def finishRequest (finishedStatus : RequestStatus) (s : Scheduler) (r : Ref) :
    Result Scheduler :=
  let request := s.objs r
  let loading := request.status = .waitingForRemoteKvs
  let delayFreeBlocks : Bool := loading ∧ request.requestId ∉ s.finishedRecvingKvReqIds
  let s :=
    if loading then
      { s with
        finishedRecvingKvReqIds := s.finishedRecvingKvReqIds.filter (· ≠ request.requestId)
        failedRecvingKvReqIds := s.failedRecvingKvReqIds.filter (· ≠ request.requestId) }
    else s
  let s := s.modify r fun q => { q with status := finishedStatus }
  freeRequest c env s r delayFreeBlocks

/-- The first pass of `finish_requests`: the requests leave their queues. -/
def dequeueFinished (s : Scheduler) (valid : List Ref) : Scheduler :=
  let runningReqs := valid.filter fun r => (s.objs r).status = .running
  let waitingReqs := valid.filter fun r => (s.objs r).status ≠ .running
  let streaming := valid.filter fun r => (s.objs r).status = .waitingForStreamingReq
  { s with
    numWaitingForStreamingInput := s.numWaitingForStreamingInput - streaming.length
    running := removeAll s.running runningReqs
    waiting :=
      if waitingReqs = [] then s.waiting
      else RequestQueue.removeRequests c.policy s.lt s.waiting waitingReqs
    skippedWaiting :=
      if waitingReqs = [] then s.skippedWaiting
      else RequestQueue.removeRequests c.policy s.lt s.skippedWaiting waitingReqs }

def finishRequests (s : Scheduler) (requestIds : Option (List ReqId))
    (finishedStatus : RequestStatus) : Result Scheduler := do
  Result.ensure finishedStatus.isFinished "RequestStatus.is_finished(finished_status)"
  let reqIds :=
    match requestIds with
    | some ids => ids.dedup
    | none => s.requests.keys
  let valid := s.unfinishedOf reqIds
  valid.foldlM (finishRequest c env finishedStatus) (dequeueFinished c s valid)

/-- The local variables of the loop in `update_from_output`. -/
structure UpdateState where
  sched : Scheduler
  stoppedRunningReqs : List Ref := []
  stoppedPreemptedReqs : List Ref := []
  outputs : List EngineCoreOutput := []

def rejectDrafts (numDraftTokens numGenerated : Nat) (request : Request) : Request :=
  let numRejected : Int := numDraftTokens - (numGenerated - 1)
  { request with
    numComputedTokens :=
      if request.numComputedTokens > 0 then request.numComputedTokens - numRejected
      else request.numComputedTokens
    numOutputPlaceholders :=
      if request.numOutputPlaceholders > 0 then request.numOutputPlaceholders - numRejected
      else request.numOutputPlaceholders }

def applyOutput (s : Scheduler) (r : Ref) (generated : List Token) (pooled : Bool) :
    Result (List Token × Bool × Scheduler) :=
  if generated ≠ [] then updateRequestWithOutput c s r generated
  else if (s.objs r).poolingParams.isSome && pooled then
    .ok ([], true, s.modify r fun q => { q with status := .finishedStopped })
  else .ok ([], false, s)

def settleStopped (u : UpdateState) (r : Ref) (statusBeforeStop : RequestStatus) :
    Result UpdateState := do
  let (finished, s) ← handleStoppedRequest c u.sched r
  let s ← (if finished then freeRequest c env s r false else .ok s : Result Scheduler)
  if statusBeforeStop = .running then
    return { u with sched := s, stoppedRunningReqs := u.stoppedRunningReqs.insert r }
  else return { u with sched := s, stoppedPreemptedReqs := u.stoppedPreemptedReqs.insert r }

/-- The loop body of `update_from_output` for a live request. -/
def updateRequest (o : SchedulerOutput) (m : ModelRunnerOutput) (u : UpdateState) (reqId : ReqId)
    (r : Ref) : Result UpdateState := do
  let generated := m.sampledTokenIds reqId
  let numDraftTokens := (o.scheduledSpecDecodeTokens.getD reqId []).length
  let s :=
    if 0 < numDraftTokens ∧ generated ≠ [] then
      u.sched.modify r (rejectDrafts numDraftTokens generated.length)
    else u.sched
  let statusBeforeStop := (s.objs r).status
  let (newTokenIds, stopped, s) ← applyOutput c s r generated (m.hasPoolerOutput reqId)
  let finishReason := if stopped then (s.objs r).status.getFinishedReason else none
  let u := { u with sched := s }
  let u ← (if stopped then settleStopped c env u r statusBeforeStop else .ok u : Result UpdateState)
  if newTokenIds ≠ [] ∨ m.hasPoolerOutput reqId ∨ stopped then
    let request := u.sched.objs r
    return { u with
      outputs := u.outputs ++
        [{ requestId := reqId
           newTokenIds
           finishReason
           stopReason := request.stopReason
           numCachedTokens := request.numCachedTokens
           numExternalComputedTokens := request.numExternalComputedTokens }] }
  else return u

def updateRequests (o : SchedulerOutput) (m : ModelRunnerOutput) (failed : List ReqId) :
    List (ReqId × Int) → UpdateState → Result UpdateState
  | [], u => .ok u
  | (reqId, numTokensScheduled) :: rest, u => do
    Result.ensure (numTokensScheduled > 0) "num_tokens_scheduled > 0"
    if reqId ∈ failed then updateRequests o m failed rest u
    else
      match u.sched.requests.get? reqId with
      | none => updateRequests o m failed rest u
      | some r =>
        if (u.sched.objs r).isFinished then updateRequests o m failed rest u
        else
          let u ← updateRequest c env o m u reqId r
          updateRequests o m failed rest u

def dequeueStopped (u : UpdateState) : Scheduler :=
  { u.sched with
    running := removeAll u.sched.running u.stoppedRunningReqs
    waiting :=
      if u.stoppedPreemptedReqs = [] then u.sched.waiting
      else RequestQueue.removeRequests c.policy u.sched.lt u.sched.waiting u.stoppedPreemptedReqs }

/-- The accumulators of `_update_requests_with_invalid_blocks`. -/
structure InvalidScan where
  sched : Scheduler
  markedInvalidBlockIds : List BlockId := []
  affectedReqIds : List ReqId := []
  blocksToEvict : List BlockId := []

/-- The computed tokens of a request end before its block `idx`. -/
def truncateComputed (blockSize idx : Nat) (reqNumComputedTokens : Int) (request : Request) :
    Request :=
  let numComputedTokens : Int := idx * blockSize
  { request with
    numComputedTokens
    numExternalComputedTokens :=
      request.numExternalComputedTokens - (reqNumComputedTokens - numComputedTokens) }

def scanBlocks (invalidBlockIds : List BlockId) (evictBlocks : Bool) (r : Ref)
    (reqNumComputedTokens : Int) (reqBlockIds : List BlockId) :
    List (BlockId × Nat) → Bool → Bool → InvalidScan → Bool × Bool × InvalidScan
  | [], isAffected, marked, scan => (isAffected, marked, scan)
  | (blockId, idx) :: rest, isAffected, marked, scan =>
    if blockId ∉ invalidBlockIds then
      scanBlocks invalidBlockIds evictBlocks r reqNumComputedTokens reqBlockIds rest isAffected
        marked scan
    else if blockId ∈ scan.markedInvalidBlockIds then
      scanBlocks invalidBlockIds evictBlocks r reqNumComputedTokens reqBlockIds rest true marked scan
    else
      let scan := { scan with markedInvalidBlockIds := blockId :: scan.markedInvalidBlockIds }
      let scan :=
        if marked then scan
        else
          { scan with
            sched := scan.sched.modify r
              (truncateComputed c.kv.hashBlockSize idx reqNumComputedTokens)
            blocksToEvict :=
              if evictBlocks then (scan.blocksToEvict ++ reqBlockIds.drop idx).dedup
              else scan.blocksToEvict }
      scanBlocks invalidBlockIds evictBlocks r reqNumComputedTokens reqBlockIds rest true true scan

def scanRequest (invalidBlockIds : List BlockId) (evictBlocks : Bool) (scan : InvalidScan) (r : Ref) :
    Result InvalidScan :=
  let request := scan.sched.objs r
  match scan.sched.kvCacheManager.getBlockIds request.requestId with
  | [reqBlockIds] =>
    let reqNumComputedTokens :=
      if request.status = .waitingForRemoteKvs then request.numComputedTokens
      else request.numCachedTokens
    let reqNumComputedBlocks :=
      (reqNumComputedTokens + c.kv.hashBlockSize - 1) / (c.kv.hashBlockSize : Int)
    let (isAffected, marked, scan) := scanBlocks c invalidBlockIds evictBlocks r
      reqNumComputedTokens reqBlockIds (reqBlockIds.zipIdx.take reqNumComputedBlocks.toNat) false
      false scan
    if isAffected then
      let sched :=
        if marked then scan.sched
        else scan.sched.modify r fun q => { q with numComputedTokens := q.numCachedTokens }
      .ok { scan with sched, affectedReqIds := scan.affectedReqIds.insert request.requestId }
    else .ok scan
  | _ => .error (.valueError "not enough values to unpack")

def handleInvalidBlocks (s : Scheduler) (invalidBlockIds : List BlockId) :
    Result (List ReqId × Scheduler) := do
  let asyncLoadReqs := (RequestQueue.iter c.policy s.lt s.skippedWaiting).filter fun r =>
    (s.objs r).status = .waitingForRemoteKvs
  let asyncScan ← asyncLoadReqs.foldlM (scanRequest c invalidBlockIds false) { sched := s }
  let syncScan ← asyncScan.sched.running.foldlM (scanRequest c invalidBlockIds true)
    { sched := asyncScan.sched }
  let s := syncScan.sched
  if asyncScan.affectedReqIds = [] ∧ syncScan.affectedReqIds = [] then return ([], s)
  else
    if c.recomputeKvLoadFailures then
      return (syncScan.affectedReqIds,
        { s with
          failedRecvingKvReqIds := s.failedRecvingKvReqIds.union asyncScan.affectedReqIds })
    else
      let kv ←
        (if syncScan.blocksToEvict = [] then .ok s.kvCacheManager
        else s.kvCacheManager.evictBlocks c.kv syncScan.blocksToEvict : Result KVCacheManager)
      return (asyncScan.affectedReqIds.union syncScan.affectedReqIds, s.withKv kv)

def finishRecving (s : Scheduler) (reqId : ReqId) : Result Scheduler :=
  match s.requests.get? reqId with
  | none => .error (.assertionError "req_id in self.requests")
  | some r =>
    if (s.objs r).status = .waitingForRemoteKvs then
      .ok { s with finishedRecvingKvReqIds := s.finishedRecvingKvReqIds.insert reqId }
    else s.freeBlocks r

def finishSending (s : Scheduler) (reqId : ReqId) : Result Scheduler :=
  match s.requests.get? reqId with
  | none => .error (.assertionError "req_id in self.requests")
  | some r => s.freeBlocks r

def updateFromKvXferFinished (s : Scheduler) (out : KVConnectorOutput) : Result Scheduler := do
  let s ← out.finishedRecving.foldlM finishRecving s
  out.finishedSending.foldlM finishSending s

def takeKvEvents (s : Scheduler) : Scheduler :=
  s.withKv { s.kvCacheManager with
    blockPool := (s.kvCacheManager.blockPool.takeEvents c.kv.toPoolConfig).2 }

/-- The requests whose KV load failed are left out, and finished under the `fail` policy. -/
def failedLoads (s : Scheduler) (m : ModelRunnerOutput) : Result (List ReqId × Scheduler) :=
  match m.kvConnectorOutput with
  | none => .ok ([], s)
  | some out =>
    if out.invalidBlockIds = [] then .ok ([], s) else handleInvalidBlocks c s out.invalidBlockIds

def finishFailed (u : List EngineCoreOutput × Scheduler) (failed : List ReqId) :
    Result (List EngineCoreOutput × Scheduler) :=
  if failed ≠ [] ∧ !c.recomputeKvLoadFailures then
    match failed.mapM fun id => u.2.requests.get? id with
    | none => .error .keyError
    | some refs => do
      let s ← finishRequests c env u.2 (some failed) .finishedError
      return (u.1 ++ refs.map fun r =>
        { requestId := (s.objs r).requestId
          newTokenIds := []
          finishReason := (s.objs r).status.getFinishedReason
          stopReason := none
          numCachedTokens := (s.objs r).numCachedTokens
          numExternalComputedTokens := 0 }, s)
  else .ok u

def finishTransfers (s : Scheduler) (m : ModelRunnerOutput) : Result Scheduler :=
  match m.kvConnectorOutput with
  | none => .ok s
  | some out => updateFromKvXferFinished s out

def updateFromOutput (s : Scheduler) (o : SchedulerOutput) (m : ModelRunnerOutput) :
    Result (List EngineCoreOutput × Scheduler) := do
  let (failed, s) ← failedLoads c s m
  let u ← updateRequests c env o m failed o.numScheduledTokens.items { sched := s }
  let (outputs, s) ← finishFailed c env (u.outputs, dequeueStopped c u) failed
  let s ← finishTransfers s m
  return (outputs, takeKvEvents c s)

/-- A new request object. -/
def register (s : Scheduler) (request : Request) : Ref × Scheduler :=
  (s.nextRef,
    { s with
      objs := Function.update s.objs s.nextRef request
      nextRef := s.nextRef + 1 })

def addRequest (s : Scheduler) (params : RequestParams) : Result Scheduler :=
  let request := params.init c.blockHasher
  match s.requests.get? request.requestId with
  | some existing =>
    let update := StreamingUpdate.fromRequest request
    if (s.objs existing).status ≠ .waitingForStreamingReq then
      match (s.objs existing).streamingQueue with
      | none => .error (.assertionError "duplicate request id")
      | some queue =>
        .ok (s.modify existing fun q => { q with streamingQueue := some (queue ++ [update]) })
    else
      match update with
      | some update => updateRequestAsSession c s existing update
      | none => finishRequests c env s (some [request.requestId]) .finishedAborted
  | none =>
    let request :=
      if request.resumable then { request with streamingQueue := some [] } else request
    let (r, s) := s.register request
    let s := enqueueWaitingRequest c s r
    .ok { s with requests := s.requests.set request.requestId r }

def preemptAll : Nat → Scheduler → Result Scheduler
  | 0, s => .ok s
  | fuel + 1, s =>
    match s.running.getLast? with
    | none => .ok s
    | some r => do
      let s ← preemptRequest c { s with running := s.running.dropLast } r
      preemptAll fuel (s.modify r fun q =>
        { q with numOutputPlaceholders := 0, discardLatestAsyncTokens := true })

/-- `reset_prefix_cache`. The source raises after a failed forced reset; the state stays as it is
then, which `none` says. -/
def resetPrefixCache (s : Scheduler) (resetRunningRequests : Bool) :
    Result (Option Bool × Scheduler) := do
  let s ←
    (if resetRunningRequests then do
      let s ← preemptAll c s.running.length s
      return { s with prevStepScheduledReqIds := [] }
    else .ok s : Result Scheduler)
  let (resetSuccessful, kv) := s.kvCacheManager.resetPrefixCache c.kv
  return (if resetRunningRequests && !resetSuccessful then none else some resetSuccessful,
    s.withKv kv)

end Scheduler

end Vllm
