import Mathlib.Data.Finset.Basic
import Mathlib.Data.Set.Basic
import Vllm.Lib.Dict
import Vllm.Lib.Run
import Vllm.Request

/-! The maps of the output processor, for requests of any kind: which requests are live, which of
them have an external id in common, and which parents have children. What is put into the queues is
left out. -/

namespace Vllm.Frontend

/-- What the maps depend on of a `RequestState`: the waiting updates of a streaming input are kept by
their `final`. -/
structure IndexedState where
  externalReqId : ReqId
  parentReq : Option ReqId
  hasQueue : Bool
  streamingInput : Bool
  inputChunkQueue : Option (List Bool)
  deriving DecidableEq

structure IncomingRequest where
  requestId : ReqId
  externalReqId : ReqId
  parentReq : Option ReqId
  hasQueue : Bool
  resumable : Bool
  deriving DecidableEq

/-- `parents` has the `child_requests` of each parent object. The last two are not part of the
processor: the requests that were live before the last abort and the ids it returned. -/
structure RequestIndexes where
  requestStates : Dict ReqId IndexedState
  parentRequests : Finset ReqId
  externalReqIds : Dict ReqId (List ReqId)
  parents : Dict ReqId (List ReqId)
  liveBefore : List ReqId
  aborted : List ReqId

namespace RequestIndexes

def init : RequestIndexes := ⟨.empty, ∅, .empty, .empty, [], []⟩

def childRequests (w : RequestIndexes) (parent : ReqId) : List ReqId := w.parents.getD parent []

/-- `get_outputs` for a final output: the parent does not wait for the child any more. -/
def settleChild (w : RequestIndexes) (st : IndexedState) (requestId : ReqId) : RequestIndexes :=
  match st.parentReq with
  | none => w
  | some parent =>
    { w with parents := w.parents.set parent ((w.childRequests parent).erase requestId) }

def removeInternal (w : RequestIndexes) (externalReqId requestId : ReqId) :
    Result RequestIndexes :=
  let internalIds := w.externalReqIds.getD externalReqId []
  if requestId ∈ internalIds then
    let internalIds := internalIds.erase requestId
    .ok { w with externalReqIds :=
      if internalIds.isEmpty then w.externalReqIds.erase externalReqId
      else w.externalReqIds.set externalReqId internalIds }
  else .error (.valueError "list.remove(x): x not in list")

def finishRequest (w : RequestIndexes) (requestId : ReqId) (st : IndexedState) :
    Result RequestIndexes := do
  let w := { w with requestStates := w.requestStates.erase requestId }
  let w ← w.removeInternal st.externalReqId requestId
  match st.parentReq with
  | none => return w
  | some parent =>
    if (w.childRequests parent).isEmpty then
      return { w with parentRequests := w.parentRequests.erase parent }
    else return w

def setState (w : RequestIndexes) (requestId : ReqId) (st : IndexedState) : RequestIndexes :=
  { w with requestStates := w.requestStates.set requestId st }

def updateStreamingRequestState (w : RequestIndexes) (requestId : ReqId) (st : IndexedState)
    (resumable : Bool) : Result RequestIndexes :=
  match resumable, st.inputChunkQueue with
  | false, none => w.finishRequest requestId st
  | false, some [] => .ok (w.setState requestId { st with streamingInput := false })
  | false, some (update :: updates) =>
    .ok (w.setState requestId
      { st with inputChunkQueue := some ((update :: updates).dropLast ++ [true]) })
  | true, none =>
    .ok (w.setState requestId { st with streamingInput := true, inputChunkQueue := some [] })
  | true, some updates =>
    .ok (w.setState requestId { st with inputChunkQueue := some (updates ++ [false]) })

def getChildInfo (w : RequestIndexes) (r : IncomingRequest) : RequestIndexes :=
  match r.parentReq with
  | none => w
  | some parent =>
    { w with parents := w.parents.set parent ((w.childRequests parent).insert r.requestId) }

def addRequest (w : RequestIndexes) (r : IncomingRequest) : Result RequestIndexes :=
  let w := w.getChildInfo r
  match w.requestStates.get? r.requestId with
  | some st => w.updateStreamingRequestState r.requestId st r.resumable
  | none =>
    .ok { w with
      requestStates := w.requestStates.set r.requestId
        { externalReqId := r.externalReqId
          parentReq := r.parentReq
          hasQueue := r.hasQueue
          streamingInput := r.resumable
          inputChunkQueue := if r.resumable then some [] else none }
      parentRequests := r.parentReq.elim w.parentRequests (insert · w.parentRequests)
      externalReqIds := w.externalReqIds.set r.externalReqId
        (w.externalReqIds.getD r.externalReqId [] ++ [r.requestId]) }

/-- One output in `process_outputs`; `finished` says whether there is a finish reason after the stop
check. -/
def processOutput (w : RequestIndexes) (requestId : ReqId) (finished : Bool) :
    Result RequestIndexes :=
  match w.requestStates.get? requestId, finished with
  | some st, true =>
    let w := w.settleChild st requestId
    if st.streamingInput then
      match st.inputChunkQueue with
      | some (final :: updates) =>
        .ok (w.setState requestId
          { st with streamingInput := !final, inputChunkQueue := some updates })
      | _ => .ok (w.setState requestId { st with inputChunkQueue := none })
    else w.finishRequest requestId st
  | _, _ => .ok w

/-- One round of the first loop of `abort_requests`. -/
def resolveId (internal : Bool) (st : RequestIndexes × List ReqId) (requestId : ReqId) :
    Result (RequestIndexes × List ReqId) :=
  let (w, internalReqIds) := st
  if internal then
    match w.requestStates.get? requestId with
    | none => .ok (w, internalReqIds ++ [requestId])
    | some reqState => do
      let w ← w.removeInternal reqState.externalReqId requestId
      return (w, internalReqIds ++ [requestId])
  else
    .ok ({ w with externalReqIds := w.externalReqIds.erase requestId },
      internalReqIds ++ w.externalReqIds.getD requestId [])

def popState (w : RequestIndexes) (requestId : ReqId) (st : IndexedState) : RequestIndexes :=
  let w := { w with requestStates := w.requestStates.erase requestId }
  if st.hasQueue then w.settleChild st requestId else w

def abortFamily (w : RequestIndexes)
    (abortChildren : RequestIndexes → List ReqId → Result (RequestIndexes × List ReqId)) (parent : ReqId) :
    Result (RequestIndexes × List ReqId) :=
  if (w.childRequests parent).isEmpty then .ok (w, [])
  else abortChildren w (w.childRequests parent)

/-- One round of the second loop of `abort_requests`. -/
def abortOne (abortChildren : RequestIndexes → List ReqId → Result (RequestIndexes × List ReqId))
    (st : RequestIndexes × List ReqId) (requestId : ReqId) :
    Result (RequestIndexes × List ReqId) :=
  let (w, requestIdsToAbort) := st
  match w.requestStates.get? requestId with
  | some reqState => .ok (w.popState requestId reqState, requestIdsToAbort ++ [requestId])
  | none =>
    if requestId ∈ w.parentRequests then do
      let (w, childReqs) ← w.abortFamily abortChildren requestId
      return ({ w with parentRequests := w.parentRequests.erase requestId },
        requestIdsToAbort ++ childReqs)
    else .ok (w, requestIdsToAbort)

def abortRequests : Nat → RequestIndexes → List ReqId → Bool →
    Result (RequestIndexes × List ReqId)
  | 0, _, _, _ => .error (.runtimeError "maximum recursion depth exceeded")
  | depth + 1, w, requestIds, internal => do
    let (w, internalReqIds) ← requestIds.foldlM (resolveId internal) (w, [])
    internalReqIds.foldlM (abortOne fun w children => abortRequests depth w children true) (w, [])

/-- `process_outputs` is a loop over its outputs, each of them a step here. -/
inductive Op
  | addRequest (r : IncomingRequest)
  | processOutput (requestId : ReqId) (finished : Bool)
  | abortRequests (requestIds : List ReqId) (internal : Bool)

def recursionLimit : Nat := 1000

def step (w : RequestIndexes) : Op → Result RequestIndexes
  | .addRequest r => ({ w with liveBefore := [], aborted := [] } : RequestIndexes).addRequest r
  | .processOutput requestId finished =>
    ({ w with liveBefore := [], aborted := [] } : RequestIndexes).processOutput requestId finished
  | .abortRequests requestIds internal => do
    let (w', aborted) ← w.abortRequests recursionLimit requestIds internal
    return { w' with liveBefore := w.requestStates.keys, aborted }

def LiveChild (w : RequestIndexes) (parent requestId : ReqId) : Prop :=
  ∃ st ∈ w.requestStates.get? requestId, st.parentReq = some parent

instance (w : RequestIndexes) (parent requestId : ReqId) : Decidable (w.LiveChild parent requestId) :=
  match h : w.requestStates.get? requestId with
  | none => isFalse (by simp [LiveChild, h])
  | some st => decidable_of_iff (st.parentReq = some parent) (by simp [LiveChild, h])

structure External (w : RequestIndexes) (removed : Set ReqId) : Prop where
  nonempty : ∀ externalReqId ids, w.externalReqIds.get? externalReqId = some ids →
    ids ≠ [] ∧ ids.Nodup
  mem : ∀ externalReqId id, id ∈ w.externalReqIds.getD externalReqId [] ↔
    id ∉ removed ∧ ∃ st, w.requestStates.get? id = some st ∧ st.externalReqId = externalReqId

/-- The maps agree, and what an abort returned was live and is gone. -/
structure Consistent (w : RequestIndexes) : Prop where
  external : w.External ∅
  parents : ∀ parent, parent ∈ w.parentRequests ↔ ∃ id, w.LiveChild parent id
  aborts : ∀ id ∈ w.aborted, id ∈ w.liveBefore ∧ id ∉ w.requestStates.keys

def AllowedRequest (w : RequestIndexes) (r : IncomingRequest) : Prop :=
  (r.parentReq = none → r.requestId ∉ w.parents.keys ∧ ∀ x ∈ w.parents.items, r.requestId ∉ x.2) ∧
  ∀ parent ∈ r.parentReq,
    (r.resumable = false ∧ r.requestId ∉ w.requestStates.keys ∧ r.requestId ∉ w.parents.keys ∧
      r.requestId ≠ parent ∧ ∀ x ∈ w.parents.items, x.1 ≠ parent → r.requestId ∉ x.2) ∧
    parent ∉ w.requestStates.keys ∧ ∀ x ∈ w.parents.items, parent ∉ x.2

instance (w : RequestIndexes) (r : IncomingRequest) : Decidable (w.AllowedRequest r) :=
  inferInstanceAs (Decidable (_ ∧ _))

/-- What the callers promise. -/
def Allowed (w : RequestIndexes) : Op → Prop
  | .addRequest r => w.AllowedRequest r
  | _ => True

instance (w : RequestIndexes) : ∀ op : Op, Decidable (w.Allowed op)
  | .addRequest r => inferInstanceAs (Decidable (w.AllowedRequest r))
  | .processOutput _ _ => .isTrue trivial
  | .abortRequests _ _ => .isTrue trivial

/-- An output that ends the last live child of a parent finds no other child in its `child_requests`.
An abort by internal ids names no live request twice and none after its parent, and with a child it
names the parent, unless another child stays; one by external ids takes no parent's last child. -/
def LeavesNoParent (w : RequestIndexes) : Op → Prop
  | .addRequest _ => True
  | .processOutput requestId finished =>
    finished = true → ∀ st ∈ w.requestStates.get? requestId, ∀ parent ∈ st.parentReq,
      (∃ other ∈ w.requestStates.keys, other ≠ requestId ∧ w.LiveChild parent other) ∨
        ∀ child ∈ w.childRequests parent, child = requestId
  | .abortRequests requestIds true =>
    (requestIds.filter (· ∈ w.requestStates.keys)).Nodup ∧
      requestIds.Pairwise (fun earlier later => ¬ w.LiveChild earlier later) ∧
      ∀ requestId ∈ requestIds, ∀ st ∈ w.requestStates.get? requestId, ∀ parent ∈ st.parentReq,
        parent ∈ requestIds ∨
          ∃ other ∈ w.requestStates.keys, other ∉ requestIds ∧ w.LiveChild parent other
  | .abortRequests externalReqIds false =>
    ∀ x ∈ w.requestStates.items, x.2.externalReqId ∈ externalReqIds → ∀ parent ∈ x.2.parentReq,
      ∃ y ∈ w.requestStates.items, y.2.parentReq = some parent ∧ y.2.externalReqId ∉ externalReqIds

instance (w : RequestIndexes) : ∀ op : Op, Decidable (w.LeavesNoParent op)
  | .addRequest _ => .isTrue trivial
  | .processOutput _ _ => inferInstanceAs (Decidable (_ → _))
  | .abortRequests _ true => inferInstanceAs (Decidable (_ ∧ _))
  | .abortRequests externalReqIds false =>
    inferInstanceAs (Decidable (∀ x ∈ w.requestStates.items, x.2.externalReqId ∈ externalReqIds → _))

end RequestIndexes

end Vllm.Frontend
