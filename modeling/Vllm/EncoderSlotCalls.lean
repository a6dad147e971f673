import Vllm.Engine
import Vllm.Lib.SlotCounter
import Vllm.ScheduleMoves

/-! The calls the scheduler makes to the cache manager of an encoder-decoder model, in order. They are read
off next to the functions that make them; those of the loops of `schedule()` by way of what the loops decide. -/

namespace Vllm

inductive EncoderCall
  | allocate (r : Ref) (request : Request) (inputId : Nat)
  | freeEncoderInput (r : Ref) (request : Request) (inputId : Nat)
  | getFreedMmHashes

namespace EncoderCall

def run (e : EncoderCacheManager) : EncoderCall → Result EncoderCacheManager
  | .allocate _ request inputId => e.allocate request inputId
  | .freeEncoderInput _ request inputId => .ok (e.freeEncoderInput request inputId)
  | .getFreedMmHashes => .ok e.getFreedMmHashes.2

def free (r : Ref) (request : Request) : List EncoderCall :=
  (List.range request.mmFeatures.length).map (.freeEncoderInput r request)

end EncoderCall

structure EncoderInput where
  r : Ref
  inputId : Nat
  numEmbeds : Nat
  deriving DecidableEq

def Request.encoderInput (q : Request) (r : Ref) (inputId : Nat) : EncoderInput :=
  ⟨r, inputId, q.getNumEncoderEmbeds inputId⟩

def EncoderCall.event : EncoderCall → Option (SlotEvent EncoderInput)
  | .allocate r request inputId => some (.take (request.encoderInput r inputId))
  | .freeEncoderInput r request inputId => some (.giveBack (request.encoderInput r inputId))
  | .getFreedMmHashes => none

def EncoderPlan.inputs (plan : EncoderPlan) : List Nat := plan.encoderInputsToSchedule ++ plan.externalLoadEncoderInput

def Request.hasEncoderEmbeds (q : Request) : Bool :=
  (List.range q.mmFeatures.length).any fun i => q.getNumEncoderEmbeds i ≠ 0

def EncoderPlan.coversAll (plan : EncoderPlan) (q : Request) : Bool :=
  (List.range q.mmFeatures.length).all fun i => q.getNumEncoderEmbeds i = 0 || plan.inputs.contains i

/-- What the loops of `schedule()` decide about a request. The flag tells whether the same call had scheduled the
preempted request, which it then takes back. -/
inductive EncoderTurn
  | scheduled (r : Ref) (request : Request) (plan : EncoderPlan)
  | preempted (r : Ref) (request : Request) (takenBack : Bool)
  | refused (r : Ref) (request : Request)

namespace EncoderTurn

def calls : EncoderTurn → List EncoderCall
  | .scheduled r request plan => plan.inputs.map (.allocate r request)
  | .preempted r request _ => EncoderCall.free r request
  | .refused r request => if request.hasEncoderInputs then EncoderCall.free r request else []

/-- A request with encoder embeddings is in its first step: the call plans all its inputs, preempts it only after
having scheduled it, and does not refuse it. The scheduled request is the one registered under its id. -/
def inFirstStep (requests : Dict ReqId Ref) : EncoderTurn → Bool
  | .scheduled r request plan => requests.get? request.requestId = some r && plan.coversAll request
  | .preempted _ request takenBack => takenBack || !request.hasEncoderEmbeds
  | .refused _ request => !request.hasEncoderEmbeds

end EncoderTurn

open EncoderCall

namespace Step

open Scheduler

variable (c : SchedulerConfig) (env : Outside)

def allocateOrPreemptTurns (r : Ref) (numNewTokens : Int) : Nat → Nat → Step → List EncoderTurn
  | 0, _, _ => []
  | fuel + 1, reqIndex, st =>
    (st.sched.kvCacheManager.allocateSlots c.kv (st.sched.objs r) numNewTokens
      { numLookaheadTokens := c.numLookaheadTokens }).collect fun (newBlocks, kv) =>
        if newBlocks.isSome then []
        else
          ((st.withKv kv).takeVictim c reqIndex).collect fun (victim, reqIndex, st₁) =>
            .preempted victim (st₁.sched.objs victim) (c.policy = .priority ∧ victim ∈ st.scheduledRunningReqs) ::
              (st₁.preempt c victim).collect fun st =>
                if victim = r then [] else allocateOrPreemptTurns r numNewTokens fuel reqIndex st

def visitRunningTurns (st : Step) (reqIndex : Nat) (r : Ref) : List EncoderTurn :=
  let request := st.sched.objs r
  if reachesMaxTokens request then []
  else
    (tryScheduleEncoderInputs c env st.sched request request.numComputedTokens (runningNewTokens c st request)
      st.encoderComputeBudget).collect fun plan =>
        let st := st.withEncoder plan.encoder
        (alignedNewTokens c request plan.numNewTokens 0 0).collect fun numNewTokens =>
          if numNewTokens = 0 then []
          else
            allocateOrPreemptTurns c r numNewTokens (st.sched.running.length + 1) reqIndex st ++
              (st.allocateOrPreempt c r numNewTokens (st.sched.running.length + 1) reqIndex).collect
                fun (newBlocks, _, st) => if newBlocks.isSome then [.scheduled r (st.sched.objs r) plan] else []

def scheduleRunningTurns : Nat → Nat → Step → List EncoderTurn
  | 0, _, _ => []
  | fuel + 1, reqIndex, st =>
    if st.tokenBudget > 0 then
      match st.sched.running[reqIndex]? with
      | none => []
      | some r =>
        st.visitRunningTurns c env reqIndex r ++
          (st.visitRunning c env reqIndex r).collect fun (goOn, reqIndex, st) =>
            if goOn then scheduleRunningTurns fuel reqIndex st else []
    else []

def placeWaitingTurns (st : Step) (r : Ref) (numNewTokens : Int) (pre : ComputedPrefix) (plan : EncoderPlan) :
    List EncoderTurn :=
  let request := st.sched.objs r
  (st.sched.kvCacheManager.allocateSlots c.kv request numNewTokens (waitingArgs c request pre plan)).collect
    fun (newBlocks, _) =>
      if newBlocks.isSome then if pre.loadKvAsync then [] else [.scheduled r request plan]
      else [.refused r request]

def tryWaitingTurns (st : Step) (r : Ref) : List EncoderTurn :=
  (computedPrefix c env st.sched r).collect fun (pre, sched) =>
    let st := { st with sched }
    match pre with
    | none => []
    | some pre =>
      let request := st.sched.objs r
      (planWaiting c env st request pre).collect fun plan =>
        match plan with
        | none => []
        | some plan =>
          let st := st.withEncoder plan.encoder
          if !pre.loadKvAsync && request.hasEncoderInputs && plan.numNewTokens == 0 then []
          else
            (alignedNewTokens c request plan.numNewTokens pre.numNewLocalComputedTokens
              pre.numExternalComputedTokens).collect fun numNewTokens =>
                if c.needMambaBlockAlignedSplit && numNewTokens == 0 then []
                else st.placeWaitingTurns c r numNewTokens pre plan

def visitWaitingTurns (st : Step) : List EncoderTurn :=
  match selected st.sched (selectsSkipped c st.sched) with
  | none => []
  | some r =>
    (if isBlockedWaitingStatus (st.sched.objs r).status then tryPromote c env st.sched r
      else .ok (true, st.sched) : Result (Bool × Scheduler)).collect fun (ready, sched) =>
        let st := { st with sched }
        if !ready || st.exceedsLoras c (st.sched.objs r) then [] else st.tryWaitingTurns c env r

def scheduleWaitingTurns : Nat → Step → List EncoderTurn
  | 0, _ => []
  | fuel + 1, st =>
    if (st.sched.waiting ≠ [] ∨ st.sched.skippedWaiting ≠ []) ∧ st.tokenBudget > 0 ∧
        st.sched.running.length ≠ c.maxNumRunningReqs then
      st.visitWaitingTurns c env ++ (st.visitWaiting c env).collect fun (goOn, st) =>
        if goOn then scheduleWaitingTurns fuel st else []
    else []

def scheduleRequestsTurns (s : Scheduler) : List EncoderTurn :=
  (start c s).scheduleRunningTurns c env (s.running.length + 1) 0 ++
    ((start c s).scheduleRunning c env (s.running.length + 1) 0).collect fun st =>
      (st.recordLoras c).collect fun st =>
        if st.preemptedReqs = [] ∧ s.pauseState = .unpaused then
          st.scheduleWaitingTurns c env (st.sched.waiting.length + st.sched.skippedWaiting.length + 1)
        else []

end Step

namespace Scheduler

variable (c : SchedulerConfig) (env : Outside)

def freeEncoderInputsCalls (r : Ref) (request : Request) : List EncoderCall :=
  ((List.range request.mmFeatures.length).filter fun i =>
    match request.mmFeatures[i]? with
    | none => false
    | some f => (c.isEncoderDecoder ∧ request.numComputedTokens > 0) ∨
        (f.mmPosition.offset : Int) + f.mmPosition.length ≤ request.numComputedTokens).map
    (.freeEncoderInput r request)

def advanceRequestsCalls : List (ReqId × Int) → Scheduler → List EncoderCall
  | [], _ => []
  | (reqId, n) :: rest, s =>
    match s.requests.get? reqId with
    | none => []
    | some r =>
      let request := advance n (s.objs r)
      (if request.hasEncoderInputs then freeEncoderInputsCalls c r request else []) ++
        advanceRequestsCalls rest (s.advanceRequest c r n)

def scheduleCalls (s : Scheduler) : List EncoderCall :=
  (Step.scheduleRequestsTurns c env s).flatMap EncoderTurn.calls ++
    (Step.scheduleRequests c env s).collect fun st =>
      (st.makeOutput c).collect fun (o, s) =>
        .getFreedMmHashes :: advanceRequestsCalls c o.numScheduledTokens.items s

def finishAllCalls (finishedStatus : RequestStatus) : List Ref → Scheduler → List EncoderCall
  | [], _ => []
  | r :: refs, s =>
    free r { s.objs r with status := finishedStatus } ++
      (finishRequest c env finishedStatus s r).collect fun s => finishAllCalls finishedStatus refs s

def finishRequestsCalls (s : Scheduler) (requestIds : Option (List ReqId)) (finishedStatus : RequestStatus) :
    List EncoderCall :=
  let reqIds :=
    match requestIds with
    | some ids => ids.dedup
    | none => s.requests.keys
  let valid := s.unfinishedOf reqIds
  finishAllCalls c env finishedStatus valid (dequeueFinished c s valid)

/-- The loop of `update_from_output`; a request that is finished after its visit has been freed. -/
def updateRequestsCalls (o : SchedulerOutput) (m : ModelRunnerOutput) (failed : List ReqId) :
    List (ReqId × Int) → UpdateState → List EncoderCall
  | [], _ => []
  | (reqId, _) :: rest, u =>
    if reqId ∈ failed then updateRequestsCalls o m failed rest u
    else
      match u.sched.requests.get? reqId with
      | none => updateRequestsCalls o m failed rest u
      | some r =>
        if (u.sched.objs r).isFinished then updateRequestsCalls o m failed rest u
        else
          (updateRequest c env o m u reqId r).collect fun u =>
            (if (u.sched.objs r).isFinished then free r (u.sched.objs r) else []) ++
              updateRequestsCalls o m failed rest u

def finishFailedCalls (s : Scheduler) (failed : List ReqId) : List EncoderCall :=
  if failed ≠ [] ∧ !c.recomputeKvLoadFailures then finishRequestsCalls c env s (some failed) .finishedError
  else []

def updateFromOutputCalls (s : Scheduler) (o : SchedulerOutput) (m : ModelRunnerOutput) : List EncoderCall :=
  (failedLoads c s m).collect fun (failed, s) =>
    updateRequestsCalls c env o m failed o.numScheduledTokens.items { sched := s } ++
      (updateRequests c env o m failed o.numScheduledTokens.items { sched := s }).collect fun u =>
        finishFailedCalls c env (dequeueStopped c u) failed

def addRequestCalls (s : Scheduler) (params : RequestParams) : List EncoderCall :=
  let request := params.init c.blockHasher
  match s.requests.get? request.requestId with
  | some existing =>
    if (s.objs existing).status ≠ .waitingForStreamingReq then []
    else
      match StreamingUpdate.fromRequest request with
      | some _ => []
      | none => finishRequestsCalls c env s (some [request.requestId]) .finishedAborted
  | none => []

def preemptAllCalls : Nat → Scheduler → List EncoderCall
  | 0, _ => []
  | fuel + 1, s =>
    match s.running.getLast? with
    | none => []
    | some r =>
      free r (s.objs r) ++
        (preemptRequest c { s with running := s.running.dropLast } r).collect fun s =>
          preemptAllCalls fuel (s.modify r fun q =>
            { q with numOutputPlaceholders := 0, discardLatestAsyncTokens := true })

def resetPrefixCacheCalls (s : Scheduler) (resetRunningRequests : Bool) : List EncoderCall :=
  if resetRunningRequests then preemptAllCalls c s.running.length s else []

end Scheduler

def Engine.encoderCalls (c : SchedulerConfig) (e : Engine) : EngineOp → List EncoderCall
  | .addRequest env params => e.sched.addRequestCalls c env params
  | .schedule env => e.sched.scheduleCalls c env
  | .updateFromOutput env m =>
    match e.inFlight with
    | [] => []
    | o :: _ => e.sched.updateFromOutputCalls c env o m
  | .finishRequests env requestIds status => e.sched.finishRequestsCalls c env requestIds status
  | .resetPrefixCache resetRunningRequests => e.sched.resetPrefixCacheCalls c resetRunningRequests
  | .setPauseState _ => []

end Vllm
