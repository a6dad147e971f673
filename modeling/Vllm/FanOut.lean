import Vllm.OutputProcessor
import Vllm.Lib.Run

/-! The fan-out of a request with several samples: its children are registered one by one, while
outputs of those already sent are processed. -/

namespace Vllm.Frontend

variable {L : Type}

inductive RequestOutputKind
  | cumulative
  | delta
  | finalOnly
  deriving DecidableEq

structure ParallelParent (L : Type) extends ParentRequest where
  n : Nat
  outputKind : RequestOutputKind
  outputAggregator : List (Option (CompletionOutput L))

structure ParallelRequest where
  requestId : ReqId
  externalReqId : ReqId
  n : Nat
  outputKind : RequestOutputKind
  two_le : 2 ≤ n

namespace ParallelParent

def init (r : ParallelRequest) : ParallelParent L where
  requestId := r.requestId
  externalReqId := r.externalReqId
  childRequests := []
  n := r.n
  outputKind := r.outputKind
  outputAggregator := if r.outputKind = .finalOnly then List.replicate r.n none else []

def childReqId (p : ParallelParent L) (index : Nat) : ReqId :=
  toString index ++ "_" ++ p.requestId

def getChildInfo (p : ParallelParent L) (index : Nat) : ReqId × ParallelParent L :=
  (p.childReqId index, { p with childRequests := p.childRequests.insert (p.childReqId index) })

def settle (p : ParallelParent L) (childRequestId : ReqId) (output : CompletionOutput L) :
    ParallelParent L :=
  { p with childRequests :=
    if output.finishReason.isSome then p.childRequests.erase childRequestId else p.childRequests }

def getOutputs (p : ParallelParent L) (childRequestId : ReqId) (output : CompletionOutput L) :
    Result (List (Option (CompletionOutput L)) × Bool × ParallelParent L) :=
  let alreadyFinishedAndReturned :=
    output.finishReason.isSome && !p.childRequests.contains childRequestId
  let p := p.settle childRequestId output
  let finished := p.childRequests.isEmpty
  if p.outputKind ≠ .finalOnly then
    .ok (if alreadyFinishedAndReturned then [] else [some output], finished, p)
  else if output.index < p.outputAggregator.length then
    let p := { p with outputAggregator := p.outputAggregator.set output.index (some output) }
    .ok (if finished then p.outputAggregator else [], finished, p)
  else .error .indexError

theorem getOutputs_streaming (p : ParallelParent L) (h : p.outputKind ≠ .finalOnly)
    (childRequestId : ReqId) (output : CompletionOutput L) :
    p.getOutputs childRequestId output =
      .ok ((p.toParentRequest.getOutputs childRequestId output).1.map some,
        (p.toParentRequest.getOutputs childRequestId output).2.1,
        { p with toParentRequest := (p.toParentRequest.getOutputs childRequestId output).2.2 }) := by
  unfold getOutputs
  dsimp only
  rw [if_pos (show (p.settle childRequestId output).outputKind ≠ .finalOnly from h)]
  unfold settle ParentRequest.getOutputs
  cases output.finishReason with
  | none => rfl
  | some reason => cases p.childRequests.contains childRequestId <;> simp

end ParallelParent

/-- The parent, how many children are registered, and the children that the output processor knows,
with their indices. The last two are not part of the program: what has been put into the queue, and
the final outputs of the children. -/
structure FanOut (L : Type) where
  parent : ParallelParent L
  nextIndex : Nat
  requestStates : Dict ReqId Nat
  queue : List (List (Option (CompletionOutput L)) × Bool)
  ended : List (CompletionOutput L)

namespace FanOut

/-- The loop of `add_request` goes on to its next `await`, or an output of a child is processed; `due`
says whether the stream interval lets an unfinished one through. -/
inductive Op (L : Type)
  | register
  | output (requestId : ReqId) (content : CompletionOutput L) (due : Bool)

def init (r : ParallelRequest) : FanOut L where
  parent := .init r
  nextIndex := 0
  requestStates := .empty
  queue := []
  ended := []

/-- `get_child_info` and `OutputProcessor.add_request`, for the next index. -/
def register (x : FanOut L) : FanOut L :=
  if x.nextIndex < x.parent.n then
    let (requestId, parent) := x.parent.getChildInfo x.nextIndex
    { x with
      parent
      nextIndex := x.nextIndex + 1
      requestStates := x.requestStates.set requestId x.nextIndex }
  else x

def send (x : FanOut L) (requestId : ReqId) (output : CompletionOutput L) (due : Bool) :
    Result (FanOut L) :=
  if output.finishReason = none ∧ (x.parent.outputKind = .finalOnly ∨ due = false) then .ok x
  else do
    let (outputs, finished, parent) ← x.parent.getOutputs requestId output
    if outputs.isEmpty then return { x with parent }
    else return { x with parent, queue := x.queue ++ [(outputs, finished)] }

/-- One output in `process_outputs`; those of requests that are gone are ignored. -/
def processOutput (x : FanOut L) (requestId : ReqId) (content : CompletionOutput L) (due : Bool) :
    Result (FanOut L) :=
  match x.requestStates.get? requestId with
  | none => .ok x
  | some index => do
    let output := { content with index }
    let x ← x.send requestId output due
    if output.finishReason.isSome then
      return { x with
        requestStates := x.requestStates.erase requestId
        ended := x.ended ++ [output] }
    else return x

def step (x : FanOut L) : Op L → Result (FanOut L)
  | .register => .ok x.register
  | .output requestId content due => x.processOutput requestId content due

def AllFinished (x : FanOut L) : Prop :=
  x.nextIndex = x.parent.n ∧ x.requestStates.keys = []

def Completions (x : FanOut L) (outputs : List (CompletionOutput L)) : Prop :=
  outputs.Perm x.ended ∧ outputs.map (·.index) = List.range x.parent.n

/-- Nothing is reported finished before all children are; and if only final outputs are wanted, there
is one list of them when all children have finished, and none before. -/
structure CompletesOnce (x : FanOut L) : Prop where
  finished : ∀ o ∈ x.queue, o.2 = true → x.AllFinished
  before : x.parent.outputKind = .finalOnly → ¬ x.AllFinished → x.queue = []
  once : x.parent.outputKind = .finalOnly → x.AllFinished →
    ∃ outputs, x.Completions outputs ∧ x.queue = [(outputs.map some, true)]

/-- A child does not finish as the last of those registered, unless all are registered. -/
def LeavesNoGap (x : FanOut L) : Op L → Prop
  | .register => True
  | .output requestId content _ =>
    requestId ∈ x.requestStates.keys → content.finishReason.isSome →
      x.nextIndex = x.parent.n ∨ ∃ other ∈ x.requestStates.keys, other ≠ requestId

section Laws

theorem exists_in_order {α : Type} {f : α → Nat} {l : List α} {n : Nat}
    (h : (l.map f).Perm (List.range n)) : ∃ outputs : List α,
      outputs.map some = (List.range n).map (fun i => l.find? fun a => f a = i) ∧
      outputs.Perm l ∧ outputs.map f = List.range n := by
  have hfind : ∀ i ∈ List.range n, ∃ a, l.find? (fun a => f a = i) = some a := by
    intro i hi
    obtain ⟨a, ha, hfa⟩ := List.mem_map.1 (h.mem_iff.2 hi)
    exact Option.isSome_iff_exists.1 (List.find?_isSome.2 ⟨a, ha, decide_eq_true hfa⟩)
  have hexists : ∀ is : List Nat, (∀ i ∈ is, ∃ a, l.find? (fun a => f a = i) = some a) →
      ∃ outputs : List α, outputs.map some = is.map (fun i => l.find? fun a => f a = i) ∧
        outputs.map f = is ∧ outputs ⊆ l := by
    intro is
    induction is with
    | nil => exact fun _ => ⟨[], rfl, rfl, List.nil_subset l⟩
    | cons i is ih =>
      intro hall
      obtain ⟨⟨a, ha⟩, hall⟩ := List.forall_mem_cons.1 hall
      obtain ⟨outputs, hsome, hmap, hsub⟩ := ih hall
      refine ⟨a :: outputs, ?_, ?_, List.cons_subset.2 ⟨List.mem_of_find?_eq_some ha, hsub⟩⟩
      · rw [List.map_cons, List.map_cons, ha, hsome]
      · have hfa : f a = i := by simpa using List.find?_some ha
        rw [List.map_cons, hmap, hfa]
  obtain ⟨outputs, hsome, hmap, hsub⟩ := hexists _ hfind
  have hnodup : outputs.Nodup := by
    apply List.Nodup.of_map f
    rw [hmap]
    exact List.nodup_range
  have hlen : l.length = outputs.length := by
    rw [← List.length_map f, h.length_eq, ← hmap, List.length_map]
  exact ⟨outputs, hsome, (List.subperm_of_subset hnodup hsub).perm_of_length_le (Nat.le_of_eq hlen), hmap⟩

theorem childReqId_inj {p : ParallelParent L} {i j : Nat} (h : p.childReqId i = p.childReqId j) :
    i = j := by
  have hlist := congrArg String.toList h
  simp only [ParallelParent.childReqId, String.toList_append, List.append_assoc] at hlist
  exact Py.repr_inj (String.toList_inj.mp (List.append_cancel_right hlist))

structure Inv (x : FanOut L) : Prop where
  two_le : 2 ≤ x.parent.n
  nodup : x.parent.childRequests.Nodup
  children : ∀ id, id ∈ x.parent.childRequests ↔ id ∈ x.requestStates.keys
  childReqId : ∀ id i, x.requestStates.get? id = some i → id = x.parent.childReqId i
  indices : (x.ended.map (·.index) ++ x.requestStates.values).Perm (List.range x.nextIndex)
  bounded : x.nextIndex ≤ x.parent.n
  aggregator : x.parent.outputKind = .finalOnly → x.parent.outputAggregator =
    (List.range x.parent.n).map fun i => x.ended.find? fun o => o.index = i

theorem Inv.init (r : ParallelRequest) : (init r : FanOut L).Inv where
  two_le := r.two_le
  nodup := List.nodup_nil
  children _ := Iff.rfl
  childReqId _ _ h := nomatch h
  indices := List.Perm.refl _
  bounded := Nat.zero_le _
  aggregator h := by
    show (if r.outputKind = .finalOnly then _ else _) = (List.range r.n).map fun _ => none
    have hkind : r.outputKind = .finalOnly := h
    rw [if_pos hkind, List.map_const', List.length_range]

theorem Inv.get?_lt {x : FanOut L} (h : x.Inv) {id : ReqId} {i : Nat}
    (hget : x.requestStates.get? id = some i) : i < x.nextIndex := by
  have hmem : i ∈ x.requestStates.values := Dict.mem_values.2 ⟨id, hget⟩
  exact List.mem_range.1 (h.indices.mem_iff.1 (List.mem_append_right _ hmem))

theorem Inv.register {x : FanOut L} (h : x.Inv) (hlt : x.nextIndex < x.parent.n) :
    x.register.Inv := by
  have hnew : x.requestStates.get? (x.parent.childReqId x.nextIndex) = none := by
    cases hget : x.requestStates.get? (x.parent.childReqId x.nextIndex) with
    | none => rfl
    | some i =>
      have hi := childReqId_inj (h.childReqId _ _ hget)
      exact absurd (h.get?_lt hget) (hi ▸ Nat.lt_irrefl _)
  have hnot : x.parent.childReqId x.nextIndex ∉ x.parent.childRequests := by
    rw [h.children]
    exact Dict.get?_eq_none.1 hnew
  unfold FanOut.register
  rw [if_pos hlt]
  constructor
  case two_le => exact h.two_le
  case nodup =>
    show (x.parent.childRequests.insert _).Nodup
    exact h.nodup.insert
  case children =>
    intro id
    show id ∈ x.parent.childRequests.insert _ ↔ id ∈ (x.requestStates.set _ _).keys
    rw [List.mem_insert_iff, Dict.mem_keys_set, h.children]
    rfl
  case childReqId =>
    intro id i hget
    change (x.requestStates.set (x.parent.childReqId x.nextIndex) x.nextIndex).get? id = some i at hget
    rw [Dict.get?_set] at hget
    split at hget
    · rename_i hid
      cases hget
      exact hid.symm
    · exact h.childReqId id i hget
  case indices =>
    show (_ ++ (x.requestStates.set (x.parent.childReqId x.nextIndex) x.nextIndex).values).Perm _
    rw [Dict.values, Dict.items_set_new hnew, List.map_append, ← List.append_assoc, List.range_succ]
    exact h.indices.append_right _
  case bounded => exact hlt
  case aggregator => exact h.aggregator

theorem set_find? {ended : List (CompletionOutput L)} {output : CompletionOutput L} {n : Nat}
    (hnot : output.index ∉ ended.map (·.index)) :
    (((List.range n).map fun i => ended.find? fun o => o.index = i).set output.index (some output)) =
      (List.range n).map fun i => (ended ++ [output]).find? fun o => o.index = i := by
  have hnone : ended.find? (fun o => o.index = output.index) = none := by
    rw [List.find?_eq_none]
    intro o ho hindex
    exact hnot (List.mem_map.2 ⟨o, ho, of_decide_eq_true hindex⟩)
  apply List.ext_getElem?
  intro i
  rw [List.getElem?_set, List.length_map, List.length_range, List.getElem?_map, List.getElem?_map]
  by_cases hi : output.index = i
  · subst hi
    rw [if_pos rfl]
    split
    · rename_i hlt
      rw [List.getElem?_range hlt, Option.map_some, List.find?_append, hnone]
      simp
    · rename_i hge
      rw [List.getElem?_eq_none (by simpa using hge)]
      rfl
  · rw [if_neg hi]
    by_cases hlt : i < n
    · rw [List.getElem?_range hlt]
      simp [List.find?_append, hi]
    · rw [List.getElem?_eq_none (by simpa using hlt)]
      rfl

theorem Inv.send_unfinished {x : FanOut L} (h : x.Inv) {id : ReqId}
    (hid : id ∈ x.requestStates.keys) (output : CompletionOutput L) (due : Bool) (hreason : output.finishReason = none) :
    ∃ queue, x.send id output due = .ok { x with queue } ∧
      (x.parent.outputKind = .finalOnly → queue = x.queue) ∧
      ∀ o ∈ queue, o ∈ x.queue ∨ o.2 = false := by
  unfold send
  rw [hreason]
  split
  · exact ⟨x.queue, rfl, fun _ => rfl, fun o ho => .inl ho⟩
  · rename_i hsends
    have hkind : x.parent.outputKind ≠ .finalOnly := fun hkind => hsends ⟨rfl, .inl hkind⟩
    have hbusy : x.parent.childRequests.isEmpty = false := by
      cases hlist : x.parent.childRequests with
      | nil =>
        rw [← h.children, hlist] at hid
        cases hid
      | cons _ _ => rfl
    have hout : x.parent.getOutputs id output = .ok ([some output], false, x.parent) := by
      rw [ParallelParent.getOutputs_streaming x.parent hkind, ParentRequest.getOutputs, hreason]
      simp [hbusy]
    refine ⟨x.queue ++ [([some output], false)], ?_, fun hfinal => absurd hfinal hkind, ?_⟩
    · rw [hout]
      rfl
    · intro o ho
      rcases List.mem_append.1 ho with ho | ho
      · exact .inl ho
      · cases List.mem_singleton.1 ho
        exact .inr rfl

theorem Inv.send_finished {x : FanOut L} (h : x.Inv) {id : ReqId}
    (hid : id ∈ x.requestStates.keys) (output : CompletionOutput L) (due : Bool)
    (hreason : output.finishReason.isSome)
    (hindex : output.index < x.parent.n) :
    ∃ parent queue, x.send id output due = .ok { x with parent, queue } ∧
      parent.n = x.parent.n ∧ parent.outputKind = x.parent.outputKind ∧
      parent.requestId = x.parent.requestId ∧
      parent.childRequests = x.parent.childRequests.erase id ∧
      (x.parent.outputKind = .finalOnly → parent.outputAggregator =
        x.parent.outputAggregator.set output.index (some output)) ∧
      queue = x.queue ++
        (if x.parent.outputKind ≠ .finalOnly then
          [([some output], (x.parent.childRequests.erase id).isEmpty)]
        else if (x.parent.childRequests.erase id).isEmpty then [(parent.outputAggregator, true)]
        else []) := by
  have hmem : x.parent.childRequests.contains id = true := by
    rw [List.contains_iff_mem, h.children]
    exact hid
  have hsome : output.finishReason ≠ none := Option.isSome_iff_ne_none.1 hreason
  unfold send
  rw [if_neg fun hsends => hsome hsends.1]
  by_cases hkind : x.parent.outputKind = .finalOnly
  · have hlen : output.index < x.parent.outputAggregator.length := by
      rw [h.aggregator hkind]
      simpa using hindex
    have hne : (x.parent.outputAggregator.set output.index (some output)).isEmpty = false := by
      rw [List.isEmpty_eq_false_iff, ← List.length_pos_iff, List.length_set]
      exact Nat.zero_lt_of_lt hlen
    unfold ParallelParent.getOutputs ParallelParent.settle
    dsimp only
    rw [hreason, if_neg (not_not.2 hkind), if_pos hlen, if_pos rfl, Result.ok_bind]
    refine ⟨{ x.parent with
      childRequests := x.parent.childRequests.erase id
      outputAggregator := x.parent.outputAggregator.set output.index (some output) },
      _, ?_, rfl, rfl, rfl, rfl, fun _ => rfl, rfl⟩
    rw [if_neg (not_not.2 hkind)]
    cases hempty : (x.parent.childRequests.erase id).isEmpty with
    | true => simp [hne]
    | false => simp
  · have hout : x.parent.getOutputs id output = .ok ([some output],
        (x.parent.childRequests.erase id).isEmpty,
        { x.parent with childRequests := x.parent.childRequests.erase id }) := by
      rw [ParallelParent.getOutputs_streaming x.parent hkind, ParentRequest.getOutputs, hreason, hmem]
      rfl
    refine ⟨{ x.parent with childRequests := x.parent.childRequests.erase id }, _, ?_, rfl, rfl, rfl,
      rfl, fun hfinal => absurd hfinal hkind, rfl⟩
    rw [hout, if_pos hkind]
    rfl

theorem Inv.finish {x x' : FanOut L} (h : x.Inv) {id : ReqId} {output : CompletionOutput L}
    (hget : x.requestStates.get? id = some output.index) (hn : x'.parent.n = x.parent.n)
    (hkind : x'.parent.outputKind = x.parent.outputKind)
    (hrequest : x'.parent.requestId = x.parent.requestId)
    (hchildren : x'.parent.childRequests = x.parent.childRequests.erase id)
    (haggregator : x.parent.outputKind = .finalOnly → x'.parent.outputAggregator =
      x.parent.outputAggregator.set output.index (some output))
    (hnext : x'.nextIndex = x.nextIndex) (hstates : x'.requestStates = x.requestStates.erase id)
    (hended : x'.ended = x.ended ++ [output]) : x'.Inv := by
  have hperm := (Dict.perm_erase hget).map Prod.snd
  have hfresh : output.index ∉ x.ended.map (·.index) := by
    have hnodup := (h.indices.nodup_iff.2 List.nodup_range)
    intro hmem
    exact (List.nodup_append.1 hnodup).2.2 _ hmem _ (Dict.mem_values.2 ⟨id, hget⟩) rfl
  constructor
  case two_le => exact hn ▸ h.two_le
  case nodup =>
    rw [hchildren]
    exact h.nodup.erase id
  case children =>
    intro id'
    rw [hchildren, hstates, h.nodup.mem_erase_iff, Dict.mem_keys_erase, h.children]
  case childReqId =>
    intro id' i hget'
    rw [hstates] at hget'
    rw [ParallelParent.childReqId, hrequest]
    exact h.childReqId id' i (Dict.get?_of_erase hget')
  case indices =>
    rw [hended, hstates, hnext, List.map_append, List.append_assoc]
    exact (List.Perm.append_left _ hperm.symm).trans h.indices
  case bounded =>
    rw [hnext, hn]
    exact h.bounded
  case aggregator =>
    intro hfinal
    rw [hkind] at hfinal
    rw [haggregator hfinal, h.aggregator hfinal, hn, hended]
    exact set_find? hfresh

theorem Inv.aggregated {x : FanOut L} (h : x.Inv) (hkind : x.parent.outputKind = .finalOnly)
    (hall : x.AllFinished) : ∃ outputs, x.Completions outputs ∧
      x.parent.outputAggregator = outputs.map some := by
  obtain ⟨hnext, hkeys⟩ := hall
  have hvalues : x.requestStates.values = [] := by
    rw [Dict.values, List.map_eq_nil_iff.1 hkeys]
    rfl
  have hindices := h.indices
  rw [hvalues, List.append_nil, hnext] at hindices
  obtain ⟨outputs, hsome, hperm, hmap⟩ := exists_in_order hindices
  exact ⟨outputs, ⟨hperm, hmap⟩, (h.aggregator hkind).trans hsome.symm⟩

theorem Inv.isEmpty_iff {x : FanOut L} (h : x.Inv) (id : ReqId) :
    (x.parent.childRequests.erase id).isEmpty ↔ (x.requestStates.erase id).keys = [] := by
  rw [List.isEmpty_iff, List.eq_nil_iff_forall_not_mem, List.eq_nil_iff_forall_not_mem]
  refine forall_congr' fun id' => not_congr ?_
  rw [h.nodup.mem_erase_iff, Dict.mem_keys_erase, h.children]

theorem Inv.step_register {x : FanOut L} (h : x.Inv) :
    x.register.Inv ∧ (x.CompletesOnce → x.register.CompletesOnce) := by
  by_cases hlt : x.nextIndex < x.parent.n
  · refine ⟨h.register hlt, fun honce => ?_⟩
    have hopen : ¬ x.AllFinished := fun hall => absurd hlt (hall.1 ▸ Nat.lt_irrefl _)
    have hqueue : x.register.queue = x.queue := by
      rw [FanOut.register, if_pos hlt]
    have hkind : x.register.parent.outputKind = x.parent.outputKind := by
      rw [FanOut.register, if_pos hlt]
      rfl
    have hopen' : ¬ x.register.AllFinished := by
      rintro ⟨-, hkeys⟩
      rw [FanOut.register, if_pos hlt] at hkeys
      change (x.requestStates.set (x.parent.childReqId x.nextIndex) x.nextIndex).keys = [] at hkeys
      have hmem : x.parent.childReqId x.nextIndex ∈
          (x.requestStates.set (x.parent.childReqId x.nextIndex) x.nextIndex).keys :=
        Dict.mem_keys_set.2 (.inl rfl)
      rw [hkeys] at hmem
      cases hmem
    constructor
    case finished =>
      intro o ho hfinished
      rw [hqueue] at ho
      exact absurd (honce.finished o ho hfinished) hopen
    case before =>
      intro hfinal _
      rw [hqueue]
      exact honce.before (hkind ▸ hfinal) hopen
    case once => exact fun _ hall => absurd hall hopen'
  · rw [FanOut.register, if_neg hlt]
    exact ⟨h, id⟩

theorem Inv.step_unfinished {x : FanOut L} (h : x.Inv) {id : ReqId} (content : CompletionOutput L)
    (due : Bool) (hstep : id ∈ x.requestStates.keys → content.finishReason = none) :
    ∃ x', x.processOutput id content due = .ok x' ∧ x'.Inv ∧
      (x.CompletesOnce → x'.CompletesOnce) := by
  unfold processOutput
  cases hget : x.requestStates.get? id with
  | none => exact ⟨x, rfl, h, fun honce => honce⟩
  | some index =>
    have hid : id ∈ x.requestStates.keys := Dict.mem_keys.2 ⟨index, hget⟩
    have hreason := hstep hid
    obtain ⟨queue, hsend, hsame, hqueue⟩ :=
      h.send_unfinished hid { content with index } due hreason
    have hopen : ¬ x.AllFinished := by
      rintro ⟨-, hkeys⟩
      rw [hkeys] at hid
      cases hid
    refine ⟨{ x with queue }, ?_, ⟨h.two_le, h.nodup, h.children, h.childReqId, h.indices, h.bounded,
      h.aggregator⟩, fun honce => ⟨?_, ?_, ?_⟩⟩
    · dsimp only
      rw [hsend, Result.ok_bind, hreason]
      rfl
    · intro o ho hfinished
      rcases hqueue o ho with ho | hunfinished
      · exact honce.finished o ho hfinished
      · rw [hunfinished] at hfinished
        cases hfinished
    · intro hfinal _
      exact (hsame hfinal).trans (honce.before hfinal hopen)
    · exact fun _ hall => absurd hall hopen

theorem Inv.step_finished {x : FanOut L} (h : x.Inv) {id : ReqId} {content : CompletionOutput L}
    (due : Bool) (hid : id ∈ x.requestStates.keys) (hreason : content.finishReason.isSome) :
    ∃ x', x.processOutput id content due = .ok x' ∧ x'.Inv ∧
      (x.CompletesOnce → (x'.CompletesOnce ↔ (x.nextIndex = x.parent.n ∨
        ∃ other ∈ x.requestStates.keys, other ≠ id))) := by
  obtain ⟨index, hget⟩ := Dict.mem_keys.1 hid
  obtain ⟨parent, queue, hsend, hn, hkind, hrequest, hchildren, haggregator, hqueue⟩ :=
    h.send_finished hid { content with index } due hreason
      (Nat.lt_of_lt_of_le (h.get?_lt hget) h.bounded)
  have hinv : ({ x with
      parent
      queue
      requestStates := x.requestStates.erase id
      ended := x.ended ++ [{ content with index }] } : FanOut L).Inv :=
    h.finish hget hn hkind hrequest hchildren haggregator rfl rfl rfl
  have hopen : ¬ x.AllFinished := by
    rintro ⟨-, hkeys⟩
    rw [hkeys] at hid
    cases hid
  refine ⟨_, ?_, hinv, fun honce => ?_⟩
  · unfold processOutput
    rw [hget]
    dsimp only
    rw [hsend, Result.ok_bind, if_pos hreason]
    rfl
  by_cases hlast : (x.requestStates.erase id).keys = []
  · have hempty := (h.isEmpty_iff id).2 hlast
    have hnone : ¬ ∃ other ∈ x.requestStates.keys, other ≠ id := by
      rintro ⟨other, hother, hne⟩
      have hmem := Dict.mem_keys_erase.2 ⟨hne, hother⟩
      rw [hlast] at hmem
      cases hmem
    rw [or_iff_left hnone]
    constructor
    · intro honce'
      have hreported : ∃ o ∈ queue, o.2 = true := by
        rw [hqueue, hempty]
        split
        · exact ⟨_, List.mem_append_right _ List.mem_cons_self, rfl⟩
        · exact ⟨_, List.mem_append_right _ List.mem_cons_self, rfl⟩
      obtain ⟨o, ho, hfinished⟩ := hreported
      exact (honce'.finished o ho hfinished).1.trans hn
    · intro hnext
      have hall : x.nextIndex = parent.n ∧ (x.requestStates.erase id).keys = [] :=
        ⟨hnext.trans hn.symm, hlast⟩
      refine ⟨fun _ _ _ => hall, fun _ hnot => absurd hall hnot, fun hfinal _ => ?_⟩
      have hfinal' : x.parent.outputKind = .finalOnly := hkind ▸ hfinal
      obtain ⟨outputs, hcompletions, houtputs⟩ := hinv.aggregated hfinal hall
      refine ⟨outputs, hcompletions, ?_⟩
      show queue = _
      rw [hqueue, honce.before hfinal' hopen, if_neg (not_not.2 hfinal'), if_pos hempty]
      exact congrArg (fun l => [(l, true)]) houtputs
  · have hempty : (x.parent.childRequests.erase id).isEmpty = false :=
      Bool.eq_false_iff.2 (mt (h.isEmpty_iff id).1 hlast)
    have hother : ∃ other ∈ x.requestStates.keys, other ≠ id := by
      obtain ⟨other, hmem⟩ := List.exists_mem_of_ne_nil _ hlast
      obtain ⟨hne, hmem⟩ := Dict.mem_keys_erase.1 hmem
      exact ⟨other, hmem, hne⟩
    refine iff_of_true ⟨fun o ho hfinished => ?_, fun hfinal _ => ?_, fun _ hall => ?_⟩ (.inr hother)
    · change o ∈ queue at ho
      rw [hqueue, hempty] at ho
      rcases List.mem_append.1 ho with ho | ho
      · exact absurd (honce.finished o ho hfinished) hopen
      · split at ho
        · cases List.mem_singleton.1 ho
          cases hfinished
        · cases ho
    · have hfinal' : x.parent.outputKind = .finalOnly := hkind ▸ hfinal
      show queue = []
      rw [hqueue, honce.before hfinal' hopen, if_neg (not_not.2 hfinal'), hempty]
      rfl
    · exact absurd hall.2 hlast

theorem Inv.step {x : FanOut L} (h : x.Inv) (op : Op L) :
    ∃ x', x.step op = .ok x' ∧ x'.Inv ∧
      (x.CompletesOnce → (x'.CompletesOnce ↔ x.LeavesNoGap op)) := by
  cases op with
  | register =>
    obtain ⟨hinv, honce⟩ := h.step_register
    exact ⟨_, rfl, hinv, fun h => iff_of_true (honce h) trivial⟩
  | output id content due =>
    by_cases hlast : id ∈ x.requestStates.keys ∧ content.finishReason.isSome
    · obtain ⟨x', hok, hinv, hiff⟩ := h.step_finished due hlast.1 hlast.2
      refine ⟨x', hok, hinv, fun honce => (hiff honce).trans ?_⟩
      exact ⟨fun hgap _ _ => hgap, fun hgap => hgap hlast.1 hlast.2⟩
    · obtain ⟨x', hok, hinv, honce⟩ := h.step_unfinished content due
        fun hid => by simpa using fun hreason => hlast ⟨hid, hreason⟩
      exact ⟨x', hok, hinv, fun h => iff_of_true (honce h) fun hid hreason =>
        absurd ⟨hid, hreason⟩ hlast⟩

theorem CompletesOnce.init (r : ParallelRequest) : (init r : FanOut L).CompletesOnce where
  finished := nofun
  before _ _ := rfl
  once _ hall := by
    have hn : 0 = r.n := hall.1
    exact absurd r.two_le (hn ▸ by decide)

end Laws

/-- Every run of the fan-out and the outputs of its children ends well. It completes once just if no
child finishes as the last of those registered before all are. -/
theorem completesOnce_iff (r : ParallelRequest) (ops : List (Op L)) :
    (∃ x, runSteps step (init r) ops = .ok x) ∧
      (Throughout step CompletesOnce (init r) ops ↔ Guarded step LeavesNoGap (init r) ops) := by
  constructor
  · have htotal : ∀ (x : FanOut L) (op : Op L), x.Inv → True → ∃ x', x.step op = .ok x' ∧ x'.Inv := by
      intro x op h _
      obtain ⟨x', hok, hinv, -⟩ := h.step op
      exact ⟨x', hok, hinv⟩
    obtain ⟨x, hrun, -⟩ := run_ok_of_inv htotal (Inv.init r) (guarded_true _ ops)
    exact ⟨x, hrun⟩
  · exact throughout_iff_of_total (fun x op (h : x.Inv) => h.step op) (Inv.init r)
      (CompletesOnce.init r) ops

section Sample

def twoSamples (outputKind : RequestOutputKind) : ParallelRequest where
  requestId := "r-1"
  externalReqId := "r"
  n := 2
  outputKind
  two_le := Nat.le_refl 2

def lastOutput : CompletionOutput Unit where
  index := 0
  text := []
  tokenIds := [7]
  logprobs := none
  finishReason := some "length"
  stopReason := none

/-- The first child is done before the second is registered: its output is reported as the last one,
with an empty place for the second, and when the second is done there is a second report. -/
theorem not_completesOnce_shortChild :
    ¬ Throughout step CompletesOnce (init (twoSamples .finalOnly))
      [.register, .output "0_r-1" lastOutput true, .register, .output "1_r-1" lastOutput true] ∧
    ∃ x : FanOut Unit, runSteps step (init (twoSamples .finalOnly))
      [.register, .output "0_r-1" lastOutput true, .register, .output "1_r-1" lastOutput true] =
        .ok x ∧
      x.queue.map (fun o => (o.1.map (·.map (·.index)), o.2)) =
        [([some 0, none], true), ([some 0, some 1], true)] := by
  refine ⟨fun h => ?_, _, rfl, rfl⟩
  have hdone := (h.2 _ rfl).2 _ rfl
  have hall := hdone.1.finished _ List.mem_cons_self rfl
  exact absurd hall.1 (by decide)

end Sample

end FanOut

end Vllm.Frontend
