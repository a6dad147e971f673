import Vllm.Lib.Py

/-! The request object of the engine core: the fields the scheduler, the KV cache manager and
the encoder cache manager read and write. -/

namespace Vllm

abbrev Token := Int
abbrev Bytes := List UInt8
abbrev BlockHash := Bytes
abbrev ReqId := String

inductive RequestStatus
  | waiting
  | waitingForFsm
  | waitingForRemoteKvs
  | waitingForStreamingReq
  | running
  | preempted
  | finishedStopped
  | finishedLengthCapped
  | finishedAborted
  | finishedIgnored
  | finishedError
  | finishedRepetition
  deriving DecidableEq, Repr

def RequestStatus.value : RequestStatus → Nat
  | .waiting => 1
  | .waitingForFsm => 2
  | .waitingForRemoteKvs => 3
  | .waitingForStreamingReq => 4
  | .running => 5
  | .preempted => 6
  | .finishedStopped => 7
  | .finishedLengthCapped => 8
  | .finishedAborted => 9
  | .finishedIgnored => 10
  | .finishedError => 11
  | .finishedRepetition => 12

def RequestStatus.isFinished (s : RequestStatus) : Bool :=
  RequestStatus.preempted.value < s.value

structure LoRARequest where
  loraName : String
  loraIntId : Nat
  deriving DecidableEq, Repr

structure PlaceholderRange where
  offset : Nat
  length : Nat
  isEmbed : Option (List Bool)
  deriving DecidableEq, Repr

/-- `embeds_cumsum[i]`, where a negative `i` counts from the end. -/
def PlaceholderRange.embedsCumsum (mask : List Bool) (i : Int) : Option Int :=
  (Py.index mask.length i).map fun j => ((mask.take (j + 1)).filter id).length

def PlaceholderRange.getNumEmbeds (p : PlaceholderRange) : Nat :=
  match p.isEmbed with
  | none => p.length
  | some mask => (mask.filter id).length

/-- `none` stands for an index outside of the mask. -/
def PlaceholderRange.getEmbedsIndicesInRange (p : PlaceholderRange) (startIdx endIdx : Int) :
    Option (Int × Int) :=
  match p.isEmbed with
  | none => some (startIdx, endIdx)
  | some mask => do
    let embedsStartIdx ← if startIdx > 0 then embedsCumsum mask (startIdx - 1) else some 0
    let embedsEndIdx ← embedsCumsum mask (endIdx - 1)
    return (embedsStartIdx, embedsEndIdx)

structure MultiModalFeatureSpec where
  identifier : String
  mmPosition : PlaceholderRange
  deriving DecidableEq, Repr

structure RepetitionDetectionParams where
  maxPatternSize : Int
  minPatternSize : Int
  minCount : Int
  deriving DecidableEq, Repr

structure SamplingParams where
  maxTokens : Nat
  minTokens : Nat := 0
  eosTokenId : Option Token := none
  stopTokenIds : List Token := []
  repetitionDetection : Option RepetitionDetectionParams := none
  skipReadingPrefixCache : Option Bool := none
  structuredOutputs : Bool := false
  deriving DecidableEq, Repr

structure PoolingParams where
  skipReadingPrefixCache : Option Bool := none
  deriving DecidableEq, Repr

inductive FinishReason
  | stop
  | length
  | abort
  | error
  | repetition
  deriving DecidableEq, Repr

inductive StopReason
  | token (t : Token)
  | text (s : String)
  deriving DecidableEq, Repr

structure StreamingUpdate where
  mmFeatures : Option (List MultiModalFeatureSpec)
  promptTokenIds : Option (List Token)
  maxTokens : Nat
  arrivalTime : Int
  samplingParams : Option SamplingParams
  deriving DecidableEq, Repr

structure Request where
  requestId : ReqId
  priority : Int := 0
  arrivalTime : Int := 0
  samplingParams : Option SamplingParams := none
  poolingParams : Option PoolingParams := none
  maxTokens : Nat := 1
  loraRequest : Option LoRARequest := none
  useStructuredOutput : Bool := false
  status : RequestStatus := .waiting
  stopReason : Option StopReason := none
  promptTokenIds : Option (List Token) := none
  promptEmbeds : Option (List Bytes) := none
  numPromptTokens : Nat := 0
  outputTokenIds : List Token := []
  allTokenIds : List Token := []
  numOutputPlaceholders : Int := 0
  discardLatestAsyncTokens : Bool := false
  specTokenIds : List Token := []
  numComputedTokens : Int := 0
  cacheSalt : Option String := none
  mmFeatures : List MultiModalFeatureSpec := []
  numCachedTokens : Int := -1
  isPrefillChunk : Bool := false
  numPreemptions : Nat := 0
  numExternalComputedTokens : Int := 0
  blockHashes : List BlockHash := []
  skipReadingPrefixCache : Bool := false
  resumable : Bool := false
  streamingQueue : Option (List (Option StreamingUpdate)) := none
  deriving DecidableEq, Repr

namespace Request

def numTokens (r : Request) : Nat := r.allTokenIds.length

def numTokensWithSpec (r : Request) : Nat := r.allTokenIds.length + r.specTokenIds.length

def numOutputTokens (r : Request) : Nat := r.outputTokenIds.length

def hasEncoderInputs (r : Request) : Bool := 0 < r.mmFeatures.length

def isFinished (r : Request) : Bool := r.status.isFinished

def getNumEncoderEmbeds (r : Request) (inputId : Nat) : Nat :=
  match r.mmFeatures[inputId]? with
  | some f => f.mmPosition.getNumEmbeds
  | none => 0

def lt (a b : Request) (idLt : Bool) : Bool :=
  if a.priority ≠ b.priority then a.priority < b.priority
  else if a.arrivalTime ≠ b.arrivalTime then a.arrivalTime < b.arrivalTime
  else if a.requestId ≠ b.requestId then a.requestId < b.requestId
  else idLt

end Request

def StreamingUpdate.fromRequest (r : Request) : Option StreamingUpdate :=
  if r.resumable then
    some
      { mmFeatures := some r.mmFeatures
        promptTokenIds := r.promptTokenIds
        maxTokens := r.maxTokens
        arrivalTime := r.arrivalTime
        samplingParams := r.samplingParams }
  else none

end Vllm
