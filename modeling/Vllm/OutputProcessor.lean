import Vllm.Detokenizer
import Vllm.Lib.Dict
import Vllm.Lib.Result
import Vllm.Request
import Mathlib.Logic.Function.Basic

/-! The output processor, for generation requests that stream deltas: detokenised outputs of the
engine are cut into pieces and put into the collector of their request, where the consumer gets
them. Objects that others share (collectors, parent requests, the logprobs lists of the logprobs
processors) are found under the id of their request. -/

namespace Vllm.Frontend

/-- The `logprobs` of a piece: a list of its own, or the very list of a logprobs processor. -/
inductive LogprobsRef (E : Type)
  | copy (l : List E)
  | processor (requestId : ReqId)

def finishReasonString : FinishReason → String
  | .stop => "stop"
  | .length => "length"
  | .abort => "abort"
  | .error => "error"
  | .repetition => "repetition"

/-- One piece of the output of one child; `L` holds its logprobs. -/
structure CompletionOutput (L : Type) where
  index : Nat
  text : Text
  tokenIds : List Int
  logprobs : Option L
  finishReason : Option String
  stopReason : Option StopReason

structure RequestOutput (L K : Type) where
  requestId : ReqId
  outputs : List (CompletionOutput L)
  finished : Bool
  kvTransferParams : Option K
  numCachedTokens : Nat

abbrev LogprobsLists (E : Type) := ReqId → List E

section Collector

variable {E K : Type}

def LogprobsRef.value (lists : LogprobsLists E) : LogprobsRef E → List E
  | .copy l => l
  | .processor id => lists id

/-- `completion.logprobs.extend(next_completion.logprobs)`, if there is something to add. -/
def extendLogprobs (lists : LogprobsLists E) (logprobs next : Option (LogprobsRef E)) :
    Result (LogprobsLists E × Option (LogprobsRef E)) :=
  match (next.map (·.value lists)).getD [] with
  | [] => .ok (lists, logprobs)
  | e :: es =>
    match logprobs with
    | none => .error (.assertionError "completion.logprobs is not None")
    | some (.copy l) => .ok (lists, some (.copy (l ++ e :: es)))
    | some (.processor id) => .ok (Function.update lists id (lists id ++ e :: es), logprobs)

/-- The inner loop of `add`, for one completion of the next output. -/
def addCompletion (aggregate : Bool) (lists : LogprobsLists E)
    (next : CompletionOutput (LogprobsRef E)) : List (CompletionOutput (LogprobsRef E)) →
      Result (LogprobsLists E × List (CompletionOutput (LogprobsRef E)))
  | [] => .ok (lists, [next])
  | completion :: rest =>
    if completion.index = next.index then
      if aggregate then do
        let (lists, logprobs) ← extendLogprobs lists completion.logprobs next.logprobs
        return (lists, { completion with
          text := completion.text ++ next.text
          tokenIds := completion.tokenIds ++ next.tokenIds
          logprobs
          finishReason := next.finishReason
          stopReason := next.stopReason } :: rest)
      else .ok (lists, next :: rest)
    else do
      let (lists, rest) ← addCompletion aggregate lists next rest
      return (lists, completion :: rest)

def RequestOutput.add (lists : LogprobsLists E) (self next : RequestOutput (LogprobsRef E) K)
    (aggregate : Bool) : Result (LogprobsLists E × RequestOutput (LogprobsRef E) K) := do
  let (lists, outputs) ← next.outputs.foldlM
    (fun (lists, outputs) completion => addCompletion aggregate lists completion outputs)
    (lists, self.outputs)
  return (lists, { self with
    finished := self.finished || next.finished
    kvTransferParams := next.kvTransferParams
    outputs })

inductive Collected (E K : Type)
  | output (o : RequestOutput (LogprobsRef E) K)
  | exception (e : PyError)

structure RequestOutputCollector (E K : Type) where
  aggregate : Bool
  output : Option (Collected E K)

namespace RequestOutputCollector

def put (c : RequestOutputCollector E K) (lists : LogprobsLists E) (output : Collected E K) :
    Result (LogprobsLists E × RequestOutputCollector E K) :=
  match c.output, output with
  | none, _ | _, .exception _ => .ok (lists, { c with output := some output })
  | some (.output waiting), .output next => do
    let (lists, merged) ← waiting.add lists next c.aggregate
    return (lists, { c with output := some (.output merged) })
  | some (.exception _), .output _ => .ok (lists, c)

def getNowait (c : RequestOutputCollector E K) :
    Result (Option (RequestOutput (LogprobsRef E) K) × RequestOutputCollector E K) :=
  match c.output with
  | none => .ok (none, c)
  | some (.output o) => .ok (some o, { c with output := none })
  | some (.exception e) => .error e

end RequestOutputCollector

def CompletionOutput.seen (lists : LogprobsLists E) (c : CompletionOutput (LogprobsRef E)) :
    CompletionOutput (List E) :=
  { c with logprobs := c.logprobs.map (·.value lists) }

def RequestOutput.seen (lists : LogprobsLists E) (o : RequestOutput (LogprobsRef E) K) :
    RequestOutput (List E) K :=
  { o with outputs := o.outputs.map (·.seen lists) }

end Collector

/-- `R` is a row of the engine's logprobs. -/
structure EngineCoreOutput (R K : Type) where
  requestId : ReqId
  newTokenIds : List Int
  newLogprobs : Option (List R)
  finishReason : Option FinishReason
  stopReason : Option StopReason
  kvTransferParams : Option K
  numCachedTokens : Nat

structure ParentRequest where
  requestId : ReqId
  externalReqId : ReqId
  childRequests : List ReqId

def ParentRequest.getOutputs {L : Type} (p : ParentRequest) (childRequestId : ReqId)
    (output : CompletionOutput L) : List (CompletionOutput L) × Bool × ParentRequest :=
  let alreadyReturned := output.finishReason.isSome && !p.childRequests.contains childRequestId
  let p := if output.finishReason.isSome then
    { p with childRequests := p.childRequests.erase childRequestId } else p
  (if alreadyReturned then [] else [output], p.childRequests.isEmpty, p)

/-- `queue` is the id under which the collector is found; the logprobs processor of the request
keeps logprobs if `numLogprobs` is given. -/
structure RequestState (D : Type) where
  requestId : ReqId
  externalReqId : ReqId
  parentReq : Option ReqId
  requestIndex : Nat
  detokenizer : IncrementalDetokenizer D
  numLogprobs : Option Int
  queue : ReqId
  numCachedTokens : Nat
  streamInterval : Nat
  sentTokensOffset : Nat

namespace RequestState

variable {D E K : Type}

def deltaLogprobs (st : RequestState D) (lists : LogprobsLists E) (tokenIds : List Int) :
    Option (LogprobsRef E) :=
  let logprobs := lists st.requestId
  if st.numLogprobs = none then none
  else if logprobs = [] then some (.processor st.requestId)
  else some (.copy (Py.sliceFrom logprobs (-(tokenIds.length : Int))))

def newCompletionOutput (st : RequestState D) (lists : LogprobsLists E) (tokenIds : List Int)
    (finishReason : Option FinishReason) (stopReason : Option StopReason) :
    CompletionOutput (LogprobsRef E) × RequestState D :=
  let (text, detokenizer) := st.detokenizer.getNextOutputText finishReason.isSome
  ({ index := st.requestIndex
     text
     tokenIds
     logprobs := st.deltaLogprobs lists tokenIds
     finishReason := finishReason.map finishReasonString
     stopReason := if finishReason.isSome then stopReason else none },
    { st with detokenizer })

def sends (st : RequestState D) (finishReason : Option FinishReason) : Bool :=
  st.streamInterval ≤ 1 || finishReason.isSome || st.sentTokensOffset == 0 ||
    st.sentTokensOffset + st.streamInterval ≤ st.detokenizer.numOutputTokens

def makeRequestOutput (st : RequestState D) (lists : LogprobsLists E)
    (parent : Option ParentRequest) (newTokenIds : List Int) (finishReason : Option FinishReason)
    (stopReason : Option StopReason) (kvTransferParams : Option K) :
    Option (RequestOutput (LogprobsRef E) K) × RequestState D × Option ParentRequest :=
  if st.sends finishReason then
    let newTokenIds :=
      if st.streamInterval > 1 then st.detokenizer.outputTokenIds.drop st.sentTokensOffset
      else newTokenIds
    let sentTokensOffset :=
      if st.streamInterval > 1 then st.detokenizer.numOutputTokens else st.sentTokensOffset
    let (output, st) := { st with sentTokensOffset }.newCompletionOutput lists newTokenIds
      finishReason stopReason
    match parent with
    | none =>
      (some { requestId := st.externalReqId, outputs := [output], kvTransferParams
              finished := finishReason.isSome, numCachedTokens := st.numCachedTokens },
        st, none)
    | some p =>
      let (outputs, finished, p) := p.getOutputs st.requestId output
      if outputs.isEmpty then (none, st, some p)
      else
        (some { requestId := p.externalReqId, outputs, kvTransferParams
                finished, numCachedTokens := st.numCachedTokens },
          st, some p)
  else (none, st, parent)

end RequestState

inductive Detokenization (D : Type)
  | skipped
  | fast (params : StopParams) (decoder : D)
  | slow (params : StopParams) (decoder : D)

structure NewRequest (D : Type) where
  requestId : ReqId
  externalReqId : ReqId
  n : Nat
  numLogprobs : Option Int
  promptTokenIds : List Int
  detokenization : Detokenization D

namespace NewRequest

variable {D : Type}

def detokenizer (r : NewRequest D) : IncrementalDetokenizer D :=
  match r.detokenization with
  | .skipped => { tokenIds := [], promptLen := 0, base := none }
  | .fast params decoder =>
    { tokenIds := [], promptLen := 0
      base := some { params, lastOutputTextOffset := 0, outputText := [], decoder } }
  | .slow params decoder =>
    { tokenIds := r.promptTokenIds, promptLen := r.promptTokenIds.length
      base := some { params, lastOutputTextOffset := 0, outputText := [], decoder } }

def childId (r : NewRequest D) (index : Nat) : ReqId :=
  if r.n = 1 then r.requestId else toString index ++ "_" ++ r.requestId

def child (r : NewRequest D) (streamInterval index : Nat) : RequestState D where
  requestId := r.childId index
  externalReqId := r.externalReqId
  parentReq := if r.n = 1 then none else some r.requestId
  requestIndex := index
  detokenizer := r.detokenizer
  numLogprobs := r.numLogprobs
  queue := r.requestId
  numCachedTokens := 0
  streamInterval := streamInterval
  sentTokensOffset := 0

end NewRequest

/-- What the tokenizer does: the text of the next token, and the logprobs entry of a row after
the entries there are. -/
structure Tokenizer (D R E : Type) where
  decodeNext : D → List Int → Int → Text × D
  logprobsEntry : List E → R → E

/-- `parentRequests` has the keys of the dictionary of that name. The last three are not part of
the processor: what the consumers got, the requests that left, and all that were added. -/
structure OutputProcessor (D E K : Type) where
  streamInterval : Nat
  requestStates : Dict ReqId (RequestState D)
  parentRequests : List ReqId
  externalReqIds : Dict ReqId (List ReqId)
  parents : ReqId → Option ParentRequest
  collectors : ReqId → RequestOutputCollector E K
  logprobs : LogprobsLists E
  received : ReqId → List (RequestOutput (List E) K)
  ended : ReqId → Option (RequestState D)
  requests : List (NewRequest D)

namespace OutputProcessor

variable {D R E K : Type}

def storeParent (parents : ReqId → Option ParentRequest) :
    Option ParentRequest → ReqId → Option ParentRequest
  | some p => Function.update parents p.requestId (some p)
  | none => parents

/-- `make_request_output`, and what there is to send put into the queue of the request. -/
def send (w : OutputProcessor D E K) (st : RequestState D) (newTokenIds : List Int)
    (finishReason : Option FinishReason) (stopReason : Option StopReason)
    (kvTransferParams : Option K) : Result (OutputProcessor D E K × RequestState D) := do
  let (output, st, parent) := st.makeRequestOutput w.logprobs (st.parentReq.bind w.parents)
    newTokenIds finishReason stopReason kvTransferParams
  let w := { w with parents := storeParent w.parents parent }
  match output with
  | none => return (w, st)
  | some output =>
    let (logprobs, c) ← (w.collectors st.queue).put w.logprobs (.output output)
    return ({ w with logprobs, collectors := Function.update w.collectors st.queue c }, st)

def removeInternal (w : OutputProcessor D E K) (externalReqId requestId : ReqId) :
    Result (OutputProcessor D E K) :=
  let internalIds := w.externalReqIds.getD externalReqId []
  if requestId ∈ internalIds then
    let internalIds := internalIds.erase requestId
    .ok { w with externalReqIds :=
      if internalIds.isEmpty then w.externalReqIds.erase externalReqId
      else w.externalReqIds.set externalReqId internalIds }
  else .error (.valueError "list.remove(x): x not in list")

def popState (w : OutputProcessor D E K) (st : RequestState D) : OutputProcessor D E K :=
  { w with
    requestStates := w.requestStates.erase st.requestId
    ended := Function.update w.ended st.requestId (some st) }

def finishRequest (w : OutputProcessor D E K) (st : RequestState D) :
    Result (OutputProcessor D E K) := do
  let w ← (w.popState st).removeInternal st.externalReqId st.requestId
  match st.parentReq.bind w.parents with
  | some p =>
    if p.childRequests.isEmpty then
      return { w with parentRequests := w.parentRequests.erase p.requestId }
    else return w
  | none => return w

def updateLogprobs (t : Tokenizer D R E) (w : OutputProcessor D E K) (st : RequestState D)
    (newLogprobs : Option (List R)) : Result (OutputProcessor D E K) :=
  match newLogprobs with
  | none => .ok w
  | some rows =>
    if st.numLogprobs = none then .error (.assertionError "self.num_logprobs is not None")
    else
      let l := rows.foldl (fun l row => l ++ [t.logprobsEntry l row]) (w.logprobs st.requestId)
      .ok { w with logprobs := Function.update w.logprobs st.requestId l }

/-- One round of `process_outputs`; also the id of a request to abort in the engine. -/
def processOutput (t : Tokenizer D R E) (w : OutputProcessor D E K) (o : EngineCoreOutput R K) :
    Result (OutputProcessor D E K × List ReqId) :=
  match w.requestStates.get? o.requestId with
  | none => .ok (w, [])
  | some st => do
    let (detokenizer, stopString) :=
      st.detokenizer.update t.decodeNext o.newTokenIds (o.finishReason = some .stop)
    let finishReason := if stopString.isSome then some .stop else o.finishReason
    let stopReason := (stopString.map fun s => StopReason.text (String.ofList s)).or o.stopReason
    let st := { st with detokenizer, numCachedTokens := o.numCachedTokens }
    let w ← w.updateLogprobs t st o.newLogprobs
    let (w, st) ← w.send st o.newTokenIds finishReason stopReason o.kvTransferParams
    if finishReason.isSome then
      let w ← w.finishRequest st
      return (w, if o.finishReason.isSome then [] else [o.requestId])
    else return ({ w with requestStates := w.requestStates.set st.requestId st }, [])

def processOutputs (t : Tokenizer D R E) (w : OutputProcessor D E K)
    (outputs : List (EngineCoreOutput R K)) : Result (OutputProcessor D E K × List ReqId) :=
  outputs.foldlM (fun (w, aborts) o => do
    let (w, more) ← w.processOutput t o
    return (w, aborts ++ more)) (w, [])

/-- One round of the first loop of `abort_requests`. -/
def resolveId (internal : Bool) (w : OutputProcessor D E K) (requestId : ReqId) :
    Result (OutputProcessor D E K × List ReqId) :=
  if internal then
    match w.requestStates.get? requestId with
    | some st => do
      let w ← w.removeInternal st.externalReqId requestId
      return (w, [requestId])
    | none => .ok (w, [requestId])
  else
    .ok ({ w with externalReqIds := w.externalReqIds.erase requestId },
      w.externalReqIds.getD requestId [])

def resolveIds (internal : Bool) (w : OutputProcessor D E K) (requestIds : List ReqId) :
    Result (OutputProcessor D E K × List ReqId) :=
  requestIds.foldlM (fun (w, ids) requestId => do
    let (w, more) ← w.resolveId internal requestId
    return (w, ids ++ more)) (w, [])

def abortRequests : Nat → OutputProcessor D E K → List ReqId → Bool →
    Result (OutputProcessor D E K × List ReqId)
  | 0, _, _, _ => .error (.runtimeError "maximum recursion depth exceeded")
  | depth + 1, w, requestIds, internal => do
    let (w, internalReqIds) ← w.resolveIds internal requestIds
    internalReqIds.foldlM (fun (w, aborted) requestId =>
      match w.requestStates.get? requestId with
      | some st => do
        let (w, st) ← w.send st [] (some .abort) none none
        return (w.popState st, aborted ++ [requestId])
      | none =>
        if requestId ∈ w.parentRequests then
          match w.parents requestId with
          | some p => do
            let (w, children) ←
              if p.childRequests.isEmpty then .ok (w, [])
              else abortRequests depth w p.childRequests true
            return ({ w with parentRequests := w.parentRequests.erase requestId },
              aborted ++ children)
          | none => return (w, aborted)
        else return (w, aborted)) (w, [])

/-- `get_child_info` where there is a parent, and `add_request`, for a request that is new. -/
def addChild (r : NewRequest D) (w : OutputProcessor D E K) (index : Nat) :
    OutputProcessor D E K :=
  let st := r.child w.streamInterval index
  { w with
    parents := fun id => (w.parents id).map fun p =>
      if st.parentReq = some id then { p with childRequests := p.childRequests.insert st.requestId }
      else p
    requestStates := w.requestStates.set st.requestId st
    parentRequests :=
      match st.parentReq with
      | some id => w.parentRequests.insert id
      | none => w.parentRequests
    externalReqIds := w.externalReqIds.set r.externalReqId
      (w.externalReqIds.getD r.externalReqId [] ++ [st.requestId])
    logprobs := Function.update w.logprobs st.requestId [] }

/-- `add_request` of the front-end, without its awaits: all children of the request are registered in one
step. -/
def addRequest (w : OutputProcessor D E K) (r : NewRequest D) : OutputProcessor D E K :=
  let w := { w with
    collectors := Function.update w.collectors r.requestId { aggregate := true, output := none }
    parents := if r.n = 1 then w.parents else Function.update w.parents r.requestId
      (some { requestId := r.requestId, externalReqId := r.externalReqId, childRequests := [] })
    requests := w.requests ++ [r] }
  (List.range r.n).foldl (addChild r) w

def get (w : OutputProcessor D E K) (queue : ReqId) : Result (OutputProcessor D E K) := do
  let (output, c) ← (w.collectors queue).getNowait
  let w := { w with collectors := Function.update w.collectors queue c }
  match output with
  | some o =>
    let received := w.received queue ++ [o.seen w.logprobs]
    return { w with received := Function.update w.received queue received }
  | none => return w

end OutputProcessor

end Vllm.Frontend
