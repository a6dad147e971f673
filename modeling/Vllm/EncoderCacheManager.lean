import Vllm.Lib.Dict
import Vllm.Lib.Result
import Vllm.Request

/-! The managers of encoder outputs: `EncoderCacheManager`, and the simpler one that encoder-decoder
models use for scheduling only. -/

namespace Vllm

structure EncoderCacheManager where
  isEncoderDecoder : Bool
  numFreeSlots : Int
  numFreeableSlots : Int
  /-- For each cached `mm_hash` the requests that reference it. -/
  cached : Dict String (List ReqId) := Dict.empty
  freeable : Dict String Int := Dict.empty
  freed : List String := []
  -- `EncoderDecoderCacheManager` only
  allocated : List String := []
  toFree : List String := []

namespace EncoderCacheManager

def init (isEncoderDecoder : Bool) (cacheSize : Nat) : EncoderCacheManager :=
  { isEncoderDecoder, numFreeSlots := cacheSize, numFreeableSlots := cacheSize }

def mmHash (request : Request) (inputId : Nat) : Result String := do
  let feature ← Result.getItem request.mmFeatures inputId
  return feature.identifier

def checkAndUpdateCache (e : EncoderCacheManager) (request : Request) (mmHash : String) :
    Result (Bool × EncoderCacheManager) :=
  if e.isEncoderDecoder then .ok (false, e)
  else
    match e.cached.get? mmHash with
    | none => .ok (false, e)
    | some [] =>
      match e.freeable.get? mmHash with
      | none => .error .keyError
      | some numEncoderEmbeds =>
        .ok (true,
          { e with
            freeable := e.freeable.erase mmHash
            numFreeableSlots := e.numFreeableSlots - numEncoderEmbeds
            cached := e.cached.set mmHash [request.requestId] })
    | some refs => .ok (true, { e with cached := e.cached.set mmHash (refs.insert request.requestId) })

def evict (numEmbeds : Int) : List (String × Int) → EncoderCacheManager → Result EncoderCacheManager
  | [], e => if numEmbeds > e.numFreeSlots then .error .keyError else .ok e
  | (mmHash, numFreeEmbeds) :: rest, e =>
    if numEmbeds > e.numFreeSlots then
      if e.cached.contains mmHash then
        evict numEmbeds rest
          { e with
            freeable := e.freeable.erase mmHash
            cached := e.cached.erase mmHash
            freed := e.freed ++ [mmHash]
            numFreeSlots := e.numFreeSlots + numFreeEmbeds }
      else .error .keyError
    else .ok e

def canAllocate (e : EncoderCacheManager) (request : Request) (inputId : Nat)
    (encoderComputeBudget numEmbedsToSchedule : Int) : Result (Bool × EncoderCacheManager) :=
  let numEmbeds : Int := request.getNumEncoderEmbeds inputId
  if numEmbeds > encoderComputeBudget then .ok (false, e)
  else
    let numEmbeds := numEmbeds + numEmbedsToSchedule
    if numEmbeds ≤ e.numFreeSlots then .ok (true, e)
    else if e.isEncoderDecoder then .ok (false, e)
    else if numEmbeds > e.numFreeableSlots then .ok (false, e)
    else do
      let e ← evict numEmbeds e.freeable.items e
      return (true, e)

def allocate (e : EncoderCacheManager) (request : Request) (inputId : Nat) :
    Result EncoderCacheManager := do
  let hash ← mmHash request inputId
  let numEncoderEmbeds : Int := request.getNumEncoderEmbeds inputId
  if e.isEncoderDecoder then
    return { e with
      numFreeSlots := e.numFreeSlots - numEncoderEmbeds
      allocated := e.allocated ++ [hash] }
  else
    Result.ensure (e.numFreeSlots ≥ numEncoderEmbeds) "self.num_free_slots >= num_encoder_embeds"
    Result.ensure (e.numFreeableSlots ≥ numEncoderEmbeds)
      "self.num_freeable_slots >= num_encoder_embeds"
    return { e with
      cached := e.cached.set hash ((e.cached.getD hash []).insert request.requestId)
      numFreeSlots := e.numFreeSlots - numEncoderEmbeds
      numFreeableSlots := e.numFreeableSlots - numEncoderEmbeds }

def getCachedInputIds (e : EncoderCacheManager) (request : Request) : List Nat :=
  if e.isEncoderDecoder then List.range request.mmFeatures.length
  else
    (List.range request.mmFeatures.length).filter fun inputId =>
      match request.mmFeatures[inputId]? with
      | some feature => e.cached.contains feature.identifier
      | none => false

def freeEncoderInput (e : EncoderCacheManager) (request : Request) (inputId : Nat) :
    EncoderCacheManager :=
  let numEncoderEmbeds : Int := request.getNumEncoderEmbeds inputId
  if e.isEncoderDecoder then { e with numFreeSlots := e.numFreeSlots + numEncoderEmbeds }
  else
    match request.mmFeatures[inputId]? with
    | none => e
    | some feature =>
      let refs := e.cached.getD feature.identifier []
      if refs = [] then e
      else
        let refs := refs.filter (· ≠ request.requestId)
        let e := { e with cached := e.cached.set feature.identifier refs }
        if refs = [] then
          { e with
            freeable := e.freeable.set feature.identifier numEncoderEmbeds
            numFreeableSlots := e.numFreeableSlots + numEncoderEmbeds }
        else e

def free (e : EncoderCacheManager) (request : Request) : EncoderCacheManager :=
  (e.getCachedInputIds request).foldl (fun e inputId => e.freeEncoderInput request inputId) e

def getFreedMmHashes (e : EncoderCacheManager) : List String × EncoderCacheManager :=
  if e.isEncoderDecoder then (e.toFree, { e with toFree := e.allocated, allocated := [] })
  else (e.freed, { e with freed := [] })

end EncoderCacheManager

end Vllm
