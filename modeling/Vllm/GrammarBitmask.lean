import Mathlib.Data.BitVec
import Vllm.Lib.Dict
import Vllm.Lib.Result
import Vllm.Request

/-! Grammar bitmasks: the scheduler fills one row for each position of each structured request,
and the worker applies the rows to the logits of its own batch. -/

namespace Vllm.StructuredOutput

/-- A row of the bitmask, in 32-bit words; a set bit allows its token. -/
abbrev MaskRow := List (BitVec 32)

def numWords (vocabSize : Nat) : Nat := (vocabSize + 31) / 32

def fullRow (vocabSize : Nat) : MaskRow := List.replicate (numWords vocabSize) (-1)

def packRow (vocabSize : Nat) (allowed : Nat → Bool) : MaskRow :=
  (List.range (numWords vocabSize)).map fun w =>
    (BitVec.ofBoolListLE ((List.range 32).map fun b => allowed (32 * w + b))).cast (by simp)

def MaskRow.allows (row : MaskRow) (token : Nat) : Bool :=
  match row[token / 32]? with
  | some word => word.getLsbD (token % 32)
  | none => true

def maskLogits {L : Type} (negInf : L) (row : MaskRow) (logits : List L) : List L :=
  logits.mapIdx fun token x => if row.allows token then x else negInf

/-- `apply_token_bitmask_inplace`, for the rows with these indices or for all. -/
def applyTokenBitmask {L : Type} (negInf : L) (logits : List (List L)) (bitmask : List MaskRow)
    (indices : Option (List Nat)) : List (List L) :=
  logits.mapIdx fun r x =>
    if (indices.map (decide <| r ∈ ·)).getD true then
      match bitmask[r]? with
      | some row => maskLogits negInf row x
      | none => x
    else x

structure Automaton (σ : Type) where
  accept : σ → Int → Option σ
  terminated : σ → Bool
  allowed : σ → Nat → Bool

structure Grammar (σ : Type) where
  state : σ
  past : List σ

namespace Grammar

variable {σ : Type}

def acceptTokens (a : Automaton σ) (g : Grammar σ) : List Int → Bool × Grammar σ
  | [] => (true, g)
  | token :: tokens =>
    match a.accept g.state token with
    | some s => acceptTokens a { state := s, past := g.state :: g.past } tokens
    | none => (false, g)

def rollback (g : Grammar σ) (numTokens : Nat) : Result (Grammar σ) :=
  match (g.state :: g.past).drop numTokens with
  | s :: past => .ok { state := s, past }
  | [] => .error (.valueError "num_tokens")

end Grammar

/-- What the manager reads of a request that uses structured output. -/
structure StructuredRequest (σ : Type) where
  promptTokenIds : Option (List Int)
  reasoningEnded : Option Bool
  grammar : Grammar σ

/-- `reasoner` is `is_reasoning_end` of the reasoning parser, where there is one. -/
structure StructuredOutputManager where
  numSpeculativeTokens : Option Nat
  maxNumSeqs : Nat
  vocabSize : Nat
  fillBitmaskParallelThreshold : Nat
  fillBitmaskParallelBatchSize : Nat
  reasoner : Option (List Int → Bool)
  enableInReasoning : Bool

structure FillJob (σ : Type) where
  grammar : Grammar σ
  index : Nat
  applyBitmask : Bool

structure FillState (σ : Type) where
  bitmask : List MaskRow
  grammar : Grammar σ
  cumulativeIndex : Nat
  applyBitmask : Bool
  stateAdvancements : Nat

def FillState.rollback {σ : Type} (st : FillState σ) : Result (Grammar σ) :=
  if st.stateAdvancements > 0 then st.grammar.rollback st.stateAdvancements else .ok st.grammar

namespace StructuredOutputManager

variable {σ : Type}

def maxNumSpecTokens (m : StructuredOutputManager) : Nat := m.numSpeculativeTokens.getD 0

def shouldFillBitmask (m : StructuredOutputManager) (r : StructuredRequest σ) :
    Bool × StructuredRequest σ :=
  match m.reasoner with
  | none => (true, r)
  | some isReasoningEnd =>
    if m.enableInReasoning then (true, r)
    else
      let ended := r.reasoningEnded.getD (isReasoningEnd (r.promptTokenIds.getD []))
      (ended, { r with reasoningEnded := some ended })

def fillBitmask (m : StructuredOutputManager) (a : Automaton σ) (bitmask : List MaskRow)
    (job : FillJob σ) : Result (List MaskRow) :=
  if job.index < bitmask.length then
    .ok (bitmask.set job.index
      (if job.applyBitmask && !a.terminated job.grammar.state then
        packRow m.vocabSize (a.allowed job.grammar.state)
      else fullRow m.vocabSize))
  else .error .indexError

/-- One round of the loop over `itertools.chain(req_tokens, (-1,))`. -/
def fillPosition (m : StructuredOutputManager) (a : Automaton σ) (st : FillState σ) (token : Int) :
    Result (FillState σ) := do
  let bitmask ← m.fillBitmask a st.bitmask
    { grammar := st.grammar, index := st.cumulativeIndex, applyBitmask := st.applyBitmask }
  let applyBitmask := if token = -1 then false else st.applyBitmask
  if applyBitmask && !a.terminated st.grammar.state then
    let (accepted, grammar) := st.grammar.acceptTokens a [token]
    Result.ensure (accepted = true) "accepted"
    return { bitmask, grammar, applyBitmask
             cumulativeIndex := st.cumulativeIndex + 1
             stateAdvancements := st.stateAdvancements + 1 }
  else return { st with bitmask, applyBitmask, cumulativeIndex := st.cumulativeIndex + 1 }

def requestOf (requests : Dict ReqId (StructuredRequest σ)) (reqId : ReqId) :
    Result (StructuredRequest σ) :=
  match requests.get? reqId with
  | some r => .ok r
  | none => .error .keyError

def fillRequest (m : StructuredOutputManager) (a : Automaton σ) (drafts : Dict ReqId (List Int))
    (st : List MaskRow × Dict ReqId (StructuredRequest σ) × Nat) (reqId : ReqId) :
    Result (List MaskRow × Dict ReqId (StructuredRequest σ) × Nat) := do
  let (bitmask, requests, cumulativeIndex) := st
  let request ← requestOf requests reqId
  let (applyBitmask, request) := m.shouldFillBitmask request
  let st ← (drafts.getD reqId [] ++ [-1]).foldlM (m.fillPosition a)
    { bitmask, grammar := request.grammar, cumulativeIndex, applyBitmask, stateAdvancements := 0 }
  let grammar ← st.rollback
  return (st.bitmask, requests.set reqId { request with grammar }, st.cumulativeIndex)

/-- `batch.append(..)`, and the batch submitted when it is full. -/
def addJob (m : StructuredOutputManager) (st : List (List (FillJob σ)) × List (FillJob σ))
    (job : FillJob σ) : List (List (FillJob σ)) × List (FillJob σ) :=
  let batch := st.2 ++ [job]
  if batch.length = m.fillBitmaskParallelBatchSize then (st.1 ++ [batch], []) else (st.1, batch)

def submitRequest (m : StructuredOutputManager)
    (st : (List (List (FillJob σ)) × List (FillJob σ)) × Dict ReqId (StructuredRequest σ) × Nat)
    (reqId : ReqId) :
    Result ((List (List (FillJob σ)) × List (FillJob σ)) × Dict ReqId (StructuredRequest σ) × Nat) :=
  do
  let (jobs, requests, cumulativeIndex) := st
  let request ← requestOf requests reqId
  let (applyBitmask, request) := m.shouldFillBitmask request
  let job := { grammar := request.grammar, index := cumulativeIndex, applyBitmask }
  return (m.addJob jobs job, requests.set reqId request, cumulativeIndex + 1)

/-- `grammar_bitmask`; `pool` is the order in which the thread pool runs the jobs of the batches.
The buffer is kept for the next call. -/
def grammarBitmask (m : StructuredOutputManager) (a : Automaton σ)
    (pool : List (List (FillJob σ)) → List (FillJob σ)) (buffer : Option (List MaskRow))
    (requests : Dict ReqId (StructuredRequest σ)) (structuredOutputRequestIds : List ReqId)
    (scheduledSpecDecodeTokens : Dict ReqId (List Int)) :
    Result (Option (List MaskRow) × Option (List MaskRow) × Dict ReqId (StructuredRequest σ)) :=
  if structuredOutputRequestIds = [] then .ok (none, buffer, requests)
  else do
    let bitmask := buffer.getD
      (List.replicate (m.maxNumSeqs * (1 + m.maxNumSpecTokens)) (fullRow m.vocabSize))
    let (bitmask, requests, cumulativeIndex) ←
      if structuredOutputRequestIds.length > m.fillBitmaskParallelThreshold ∧
          m.maxNumSpecTokens = 0 then do
        let ((promises, batch), requests, cumulativeIndex) ←
          structuredOutputRequestIds.foldlM m.submitRequest (([], []), requests, 0)
        let promises := if batch = [] then promises else promises ++ [batch]
        let bitmask ← (pool promises).foldlM (m.fillBitmask a) bitmask
        pure (bitmask, requests, cumulativeIndex)
      else
        structuredOutputRequestIds.foldlM (m.fillRequest a scheduledSpecDecodeTokens)
          (bitmask, requests, 0)
    return (some (bitmask.take cumulativeIndex), some bitmask, requests)

end StructuredOutputManager

section Apply

variable {L : Type}

def structOutReqBatchIndices (specTokens : Dict ReqId (List Int)) (structOutReqIds : List ReqId) :
    List ReqId → Nat → Nat → Dict ReqId Nat → Dict ReqId Nat
  | [], _, _, indices => indices
  | reqId :: rest, batchIndex, cumulativeOffset, indices =>
    structOutReqBatchIndices specTokens structOutReqIds rest (batchIndex + 1)
      (cumulativeOffset + (specTokens.getD reqId []).length)
      (if reqId ∈ structOutReqIds then indices.set reqId (batchIndex + cumulativeOffset)
        else indices)

/-- `sorted_bitmask[bitmask_index] = grammar_bitmask[i]`. -/
def copyRow (grammarBitmask : List MaskRow) (sorted : List MaskRow × List Nat)
    (indices : Nat × Nat) : Result (List MaskRow × List Nat) :=
  match grammarBitmask[indices.2]? with
  | some row =>
    if indices.1 < sorted.1.length then
      .ok (sorted.1.set indices.1 row, sorted.2 ++ [indices.1])
    else .error .indexError
  | none => .error .indexError

def sortRequest (specTokens : Dict ReqId (List Int)) (batchIndices : Dict ReqId Nat)
    (grammarBitmask : List MaskRow) (st : (List MaskRow × List Nat) × Nat) (reqId : ReqId) :
    Result ((List MaskRow × List Nat) × Nat) := do
  let (sorted, cumulativeIndex) := st
  let numSpecTokens := (specTokens.getD reqId []).length
  let sorted ←
    match batchIndices.get? reqId with
    | some logitIdx =>
      (List.range (1 + numSpecTokens)).foldlM
        (fun sorted i => copyRow grammarBitmask sorted (logitIdx + i, cumulativeIndex + i)) sorted
    | none => .ok sorted
  return (sorted, cumulativeIndex + (1 + numSpecTokens))

def applyGrammarBitmask (negInf : L) (vocabSize : Nat) (specTokens : Dict ReqId (List Int))
    (structuredOutputRequestIds : List ReqId) (grammarBitmask : List MaskRow)
    (reqIds : List ReqId) (logits : List (List L)) : Result (List (List L)) := do
  let batchIndices :=
    structOutReqBatchIndices specTokens structuredOutputRequestIds reqIds 0 0 .empty
  let ((sortedBitmask, outIndices), _) ← structuredOutputRequestIds.foldlM
    (sortRequest specTokens batchIndices grammarBitmask)
    ((List.replicate logits.length (fullRow vocabSize), []), 0)
  let skipOutIndices := outIndices.length = logits.length
  return applyTokenBitmask negInf logits sortedBitmask
    (if skipOutIndices then none else some outIndices)

/-- `if grammar_output is not None`, in `sample_tokens`. -/
def applyGrammarOutput (negInf : L) (vocabSize : Nat) (specTokens : Dict ReqId (List Int))
    (structuredOutputRequestIds : List ReqId) (grammarBitmask : Option (List MaskRow))
    (reqIds : List ReqId) (logits : List (List L)) : Result (List (List L)) :=
  match grammarBitmask with
  | some bitmask =>
    applyGrammarBitmask negInf vocabSize specTokens structuredOutputRequestIds bitmask reqIds logits
  | none => .ok logits

end Apply

end Vllm.StructuredOutput
