import Vllm.DeltaPieces

namespace Vllm.Frontend

variable {D R E K : Type}

namespace NewRequest

variable {r : NewRequest D}

def ids (r : NewRequest D) : List ReqId := r.requestId :: (List.range r.n).map r.childId

theorem childId_mem {i : Nat} (hi : i < r.n) : r.childId i ∈ r.ids :=
  List.mem_cons_of_mem _ (List.mem_map_of_mem (List.mem_range.mpr hi))

theorem childId_inj {i j : Nat} (hi : i < r.n) (hj : j < r.n) (h : r.childId i = r.childId j) :
    i = j := by
  rw [childId, childId] at h
  split at h
  · omega
  · have hlist := congrArg String.toList h
    simp only [String.toList_append, List.append_assoc] at hlist
    exact Py.repr_inj (String.toList_inj.mp (List.append_cancel_right hlist))

theorem childId_ne_requestId (hn : r.n ≠ 1) (i : Nat) : r.childId i ≠ r.requestId := by
  intro h
  rw [childId, if_neg hn] at h
  have hlen := congrArg (fun s => s.toList.length) h
  simp only [String.toList_append, List.length_append] at hlen
  have : "_".toList.length = 1 := rfl
  omega

structure Child (r : NewRequest D) (i : Nat) (st : RequestState D) : Prop where
  requestId : st.requestId = r.childId i
  requestIndex : st.requestIndex = i
  queue : st.queue = r.requestId
  parentReq : st.parentReq = if r.n = 1 then none else some r.requestId

theorem Child.same {i : Nat} {st st' : RequestState D} (h : r.Child i st)
    (hsame : st.SameRequest st') : r.Child i st' where
  requestId := hsame.requestId.trans h.requestId
  requestIndex := hsame.requestIndex.trans h.requestIndex
  queue := hsame.queue.trans h.queue
  parentReq := hsame.parentReq.trans h.parentReq

end NewRequest

namespace OutputProcessor

variable {w w' : OutputProcessor D E K} {r : NewRequest D} {i : Nat}

def pieces (w : OutputProcessor D E K) (queue : ReqId) : List (CompletionOutput (List E)) :=
  (w.received queue).flatMap (·.outputs) ++
    (w.collectors queue).waiting.map (·.seen w.logprobs)

def Done (w : OutputProcessor D E K) (r : NewRequest D) : Prop :=
  ∀ i < r.n, w.ended (r.childId i) ≠ none

def KnowsChildren (w : OutputProcessor D E K) (r : NewRequest D) (p : ParentRequest) : Prop :=
  p.requestId = r.requestId ∧ p.childRequests.Nodup ∧
    ∀ id, id ∈ p.childRequests ↔ ∃ i < r.n, id = r.childId i ∧ w.ended id = none

structure Flow (w : OutputProcessor D E K) (r : NewRequest D) : Prop where
  collector : (w.collectors r.requestId).Streaming
  index : ∀ p ∈ (w.collectors r.requestId).waiting, p.index < r.n
  refs : ∀ p ∈ (w.collectors r.requestId).waiting, ∀ id, p.logprobs = some (.processor id) →
    id = r.childId p.index ∧ w.logprobs id = []
  live : ∀ i < r.n, ∀ st, w.requestStates.get? (r.childId i) = some st →
    w.ended (r.childId i) = none ∧ r.Child i st ∧
      st.Cut (w.logprobs (r.childId i)) (chunks (w.pieces r.requestId) i)
  ended : ∀ i < r.n, w.requestStates.get? (r.childId i) = none →
    ∃ st, w.ended (r.childId i) = some st ∧ r.Child i st ∧
      st.Whole (w.logprobs (r.childId i)) (chunks (w.pieces r.requestId) i)
  parent : r.n ≠ 1 → ∃ p, w.parents r.requestId = some p ∧ w.KnowsChildren r p
  unfinished : ¬ w.Done r → (w.collectors r.requestId).finished = false ∧
    ∀ o ∈ w.received r.requestId, o.finished = false
  finished : w.Done r →
    (w.collectors r.requestId).output ≠ none ∧ (w.collectors r.requestId).finished = true ∧
        (∀ o ∈ w.received r.requestId, o.finished = false) ∨
      (w.collectors r.requestId).output = none ∧ ∃ l o, w.received r.requestId = l ++ [o] ∧
        o.finished = true ∧ ∀ o' ∈ l, o'.finished = false

/-- Everything the flow of a request depends on is the same. -/
structure Agrees (w w' : OutputProcessor D E K) (r : NewRequest D) : Prop where
  collectors : w'.collectors r.requestId = w.collectors r.requestId
  received : w'.received r.requestId = w.received r.requestId
  parents : r.n ≠ 1 → w'.parents r.requestId = w.parents r.requestId
  requestStates : ∀ i < r.n,
    w'.requestStates.get? (r.childId i) = w.requestStates.get? (r.childId i)
  ended : ∀ i < r.n, w'.ended (r.childId i) = w.ended (r.childId i)
  logprobs : ∀ i < r.n, w'.logprobs (r.childId i) = w.logprobs (r.childId i)

theorem map_seen_congr {l : List (CompletionOutput (LogprobsRef E))}
    {lists lists' : LogprobsLists E}
    (h : ∀ p ∈ l, ∀ id, p.logprobs = some (.processor id) → lists' id = lists id) :
    l.map (·.seen lists') = l.map (·.seen lists) := by
  refine List.map_congr_left fun p hp => ?_
  have hlog : p.logprobs.map (·.value lists') = p.logprobs.map (·.value lists) := by
    match hl : p.logprobs with
    | none => rfl
    | some (.copy l) => rfl
    | some (.processor id) => exact congrArg some (h p hp id hl)
  rw [CompletionOutput.seen, CompletionOutput.seen, hlog]

theorem Flow.congr (h : Flow w r) (ha : Agrees w w' r) : Flow w' r := by
  have hpieces : w'.pieces r.requestId = w.pieces r.requestId := by
    rw [pieces, pieces, ha.received, ha.collectors]
    congr 1
    refine map_seen_congr fun p hp id hid => ?_
    obtain ⟨rfl, -⟩ := h.refs p hp id hid
    exact ha.logprobs p.index (h.index p hp)
  have hdone : w'.Done r ↔ w.Done r :=
    forall_congr' fun i => imp_congr_right fun hi => by rw [ha.ended i hi]
  refine ⟨?_, ?_, ?_, ?_, ?_, ?_, ?_, ?_⟩
  · rw [ha.collectors]
    exact h.collector
  · rw [ha.collectors]
    exact h.index
  · rw [ha.collectors]
    intro p hp id hid
    obtain ⟨rfl, hnil⟩ := h.refs p hp id hid
    exact ⟨rfl, (ha.logprobs p.index (h.index p hp)).trans hnil⟩
  · intro i hi st hst
    rw [ha.requestStates i hi] at hst
    rw [ha.ended i hi, ha.logprobs i hi, hpieces]
    exact h.live i hi st hst
  · intro i hi hnone
    rw [ha.requestStates i hi] at hnone
    rw [ha.ended i hi, ha.logprobs i hi, hpieces]
    exact h.ended i hi hnone
  · intro hn
    obtain ⟨p, hp, hid, hnodup, hmem⟩ := h.parent hn
    refine ⟨p, (ha.parents hn).trans hp, hid, hnodup, fun id => (hmem id).trans ?_⟩
    refine exists_congr fun i => and_congr_right fun hi => and_congr_right fun hid => ?_
    rw [hid, ha.ended i hi]
  · rw [hdone, ha.collectors, ha.received]
    exact h.unfinished
  · rw [hdone, ha.collectors, ha.received]
    exact h.finished

structure Sent (w w' : OutputProcessor D E K) (r : NewRequest D) (i : Nat) (l : List E)
    (st' : RequestState D) (finished : Bool) : Prop where
  streamInterval : w'.streamInterval = w.streamInterval
  requestStates : w'.requestStates = w.requestStates
  parentRequests : w'.parentRequests = w.parentRequests
  ended : w'.ended = w.ended
  received : w'.received = w.received
  requests : w'.requests = w.requests
  logprobs : w'.logprobs = Function.update w.logprobs (r.childId i) l
  collectors : ∀ queue, queue ≠ r.requestId → w'.collectors queue = w.collectors queue
  parents : ∀ id, id ≠ r.requestId → w'.parents id = w.parents id
  child : r.Child i st'
  collector : (w'.collectors r.requestId).Streaming
  index : ∀ p ∈ (w'.collectors r.requestId).waiting, p.index < r.n
  refs : ∀ p ∈ (w'.collectors r.requestId).waiting, ∀ id, p.logprobs = some (.processor id) →
    id = r.childId p.index ∧ w'.logprobs id = []
  others : ∀ j, j ≠ i → chunks (w'.pieces r.requestId) j = chunks (w.pieces r.requestId) j
  cut : finished = false → st'.Cut l (chunks (w'.pieces r.requestId) i)
  whole : finished = true → st'.Whole l (chunks (w'.pieces r.requestId) i) ∧
    (w'.collectors r.requestId).output ≠ none
  flag : (w'.collectors r.requestId).finished = true ↔
    finished = true ∧ ∀ j < r.n, j ≠ i → w.ended (r.childId j) ≠ none
  parent : r.n ≠ 1 → ∃ p, w'.parents r.requestId = some p ∧ p.requestId = r.requestId ∧
    p.childRequests.Nodup ∧ ∀ id, id ∈ p.childRequests ↔
      (∃ j < r.n, id = r.childId j ∧ w.ended id = none) ∧ ¬ (finished = true ∧ id = r.childId i)

section Send

variable {st st' : RequestState D} {l : List E} {new : List Int}

theorem finishReason_of_chunks {pieces : List (CompletionOutput (List E))} {j : Nat}
    (h : (chunks pieces j).finishReasons = []) {p : CompletionOutput (LogprobsRef E)}
    {lists : LogprobsLists E} (hp : p.seen lists ∈ pieces) (hj : p.index = j) :
    p.finishReason = none := by
  have hnil := List.flatMap_eq_nil_iff.mp h (p.seen lists)
    (List.mem_filter.mpr ⟨hp, decide_eq_true hj⟩)
  exact Option.toList_eq_nil_iff.mp hnil

def RefsSafe (w : OutputProcessor D E K) (r : NewRequest D) (i : Nat) (l : List E) : Prop :=
  l = w.logprobs (r.childId i) ∨
    ∀ p ∈ (w.collectors r.requestId).waiting, p.index = i →
      ∀ id, p.logprobs ≠ some (.processor id)

theorem RefsSafe.keeps (hsafe : RefsSafe w r i l) (h : Flow w r) (hi : i < r.n) :
    ∀ p ∈ (w.collectors r.requestId).waiting, ∀ id, p.logprobs = some (.processor id) →
      Function.update w.logprobs (r.childId i) l id = w.logprobs id := by
  intro p hp id hid
  by_cases hc : id = r.childId i
  · subst hc
    rw [Function.update_self]
    obtain ⟨hidx, -⟩ := h.refs p hp _ hid
    have hpi : p.index = i := NewRequest.childId_inj (h.index p hp) hi hidx.symm
    rcases hsafe with hl | hnone
    · exact hl
    · exact absurd hid (hnone p hp hpi _)
  · exact Function.update_of_ne hc l w.logprobs

theorem getOutputs_spec {p p' : ParentRequest} {id : ReqId} {L : Type} {out : CompletionOutput L}
    {outputs : List (CompletionOutput L)} {finished : Bool} (hid : id ∈ p.childRequests)
    (hnodup : p.childRequests.Nodup)
    (hget : p.getOutputs id out = (outputs, finished, p')) :
    outputs = [out] ∧ (finished = true ↔ p'.childRequests = []) ∧ p'.requestId = p.requestId ∧
      p'.childRequests.Nodup ∧ ∀ id', id' ∈ p'.childRequests ↔
        id' ∈ p.childRequests ∧ ¬ (out.finishReason.isSome = true ∧ id' = id) := by
  have hcontains : p.childRequests.contains id = true := List.contains_iff_mem.mpr hid
  unfold ParentRequest.getOutputs at hget
  rw [hcontains, Bool.not_true, Bool.and_false] at hget
  dsimp only at hget
  rw [if_neg Bool.false_ne_true] at hget
  cases hget
  refine ⟨rfl, List.isEmpty_iff, ?_⟩
  cases hfin : out.finishReason.isSome with
  | false => simpa using hnodup
  | true =>
    refine ⟨rfl, hnodup.erase id, fun id' => ?_⟩
    rw [if_pos rfl, hnodup.mem_erase_iff]
    simp [and_comm]

def Told (id : ReqId) (finished : Bool) (p p' : ParentRequest) : Prop :=
  p'.requestId = p.requestId ∧ p'.childRequests.Nodup ∧
    ∀ id', id' ∈ p'.childRequests ↔ id' ∈ p.childRequests ∧ ¬ (finished = true ∧ id' = id)

theorem makeRequestOutput_spec {lists : LogprobsLists E} {parent parent' : Option ParentRequest}
    {finishReason : Option FinishReason} {stopReason : Option StopReason} {kv : Option K}
    {out : Option (RequestOutput (LogprobsRef E) K)}
    (hparent : ∀ p ∈ parent, st.requestId ∈ p.childRequests ∧ p.childRequests.Nodup)
    (hmake : st.makeRequestOutput lists parent new finishReason stopReason kv =
      (out, st', parent')) :
    (st.sends finishReason = false ∧ out = none ∧ st' = st ∧ parent' = parent) ∨
      (st.sends finishReason = true ∧ ∃ o p, out = some o ∧ o.outputs = [p] ∧
        RequestState.newCompletionOutput { st with sentTokensOffset :=
          if st.streamInterval > 1 then st.detokenizer.numOutputTokens else st.sentTokensOffset }
          lists (st.unsent new) finishReason stopReason = (p, st') ∧
        (parent = none → parent' = none ∧ o.finished = finishReason.isSome) ∧
        ∀ pr, parent = some pr → ∃ pr', parent' = some pr' ∧
          (o.finished = true ↔ pr'.childRequests = []) ∧
          Told st.requestId p.finishReason.isSome pr pr') := by
  unfold RequestState.makeRequestOutput at hmake
  split at hmake
  · rename_i hsends
    refine .inr ⟨hsends, ?_⟩
    dsimp only at hmake
    rw [show (if st.streamInterval > 1 then st.detokenizer.outputTokenIds.drop st.sentTokensOffset
      else new) = st.unsent new from rfl] at hmake
    generalize hnew : RequestState.newCompletionOutput _ lists (st.unsent new) finishReason
      stopReason = next at hmake
    obtain ⟨p, st₁⟩ := next
    have hid : st₁.requestId = st.requestId := by
      unfold RequestState.newCompletionOutput at hnew
      cases hnew
      rfl
    match parent, hparent with
    | none, _ =>
      cases hmake
      exact ⟨_, p, rfl, rfl, rfl, fun _ => ⟨rfl, rfl⟩, nofun⟩
    | some pr, hparent =>
      obtain ⟨hmem, hnodup⟩ := hparent pr rfl
      dsimp only at hmake
      rw [hid] at hmake
      generalize hget : pr.getOutputs st.requestId p = got at hmake
      obtain ⟨outputs, finished, pr'⟩ := got
      obtain ⟨rfl, hfin, htold⟩ := getOutputs_spec hmem hnodup hget
      cases hmake
      refine ⟨_, p, rfl, rfl, rfl, nofun, ?_⟩
      rintro _ ⟨⟩
      exact ⟨pr', rfl, hfin, htold⟩
  · rename_i hsends
    cases hmake
    exact .inl ⟨Bool.eq_false_iff.mpr hsends, rfl, rfl, rfl⟩

theorem Flow.told (h : Flow w r) (hchild : r.Child i st) {finished : Bool}
    {parent' : Option ParentRequest}
    (hnone : st.parentReq.bind w.parents = none → parent' = none)
    (htold : ∀ pr, st.parentReq.bind w.parents = some pr →
      ∃ pr', parent' = some pr' ∧ Told st.requestId finished pr pr') :
    (∀ id, id ≠ r.requestId → storeParent w.parents parent' id = w.parents id) ∧
      (r.n ≠ 1 → ∃ p, parent' = some p ∧
        storeParent w.parents parent' r.requestId = some p ∧
        p.requestId = r.requestId ∧ p.childRequests.Nodup ∧ ∀ id, id ∈ p.childRequests ↔
          (∃ j < r.n, id = r.childId j ∧ w.ended id = none) ∧
            ¬ (finished = true ∧ id = r.childId i)) := by
  by_cases hn : r.n = 1
  · have hp : st.parentReq.bind w.parents = none := by
      rw [hchild.parentReq, if_pos hn]
      rfl
    rw [hnone hp]
    exact ⟨fun _ _ => rfl, fun h => absurd hn h⟩
  · obtain ⟨pr, hpr, hid, hnodup, hmem⟩ := h.parent hn
    have hp : st.parentReq.bind w.parents = some pr := by
      rw [hchild.parentReq, if_neg hn]
      exact hpr
    obtain ⟨pr', rfl, hid', hnodup', hmem'⟩ := htold pr hp
    have hkey : pr'.requestId = r.requestId := hid'.trans hid
    refine ⟨fun id hne => ?_, fun _ => ⟨pr', rfl, ?_, hkey, hnodup', fun id => ?_⟩⟩
    · rw [storeParent, hkey]
      exact Function.update_of_ne hne _ _
    · rw [storeParent, hkey, Function.update_self]
    · rw [hmem', hmem, hchild.requestId]

theorem childless_iff {p : ParentRequest} {finished : Bool} (hi : i < r.n)
    (hended : w.ended (r.childId i) = none)
    (hmem : ∀ id, id ∈ p.childRequests ↔ (∃ j < r.n, id = r.childId j ∧ w.ended id = none) ∧
      ¬ (finished = true ∧ id = r.childId i)) :
    p.childRequests = [] ↔ finished = true ∧ ∀ j < r.n, j ≠ i → w.ended (r.childId j) ≠ none := by
  rw [List.eq_nil_iff_forall_not_mem]
  constructor
  · intro hnil
    have hfin : finished = true := by
      by_contra hfin
      exact hnil _ ((hmem _).mpr ⟨⟨i, hi, rfl, hended⟩, fun h => hfin h.1⟩)
    refine ⟨hfin, fun j hj hne hnone => hnil _ ((hmem _).mpr ⟨⟨j, hj, rfl, hnone⟩, fun h => ?_⟩)⟩
    exact hne (NewRequest.childId_inj hj hi h.2)
  · rintro ⟨hfin, hothers⟩ id hid
    obtain ⟨⟨j, hj, rfl, hnone⟩, hne⟩ := (hmem id).mp hid
    by_cases hji : j = i
    · exact hne ⟨hfin, by rw [hji]⟩
    · exact hothers j hj hji hnone

theorem Flow.mem_parent (h : Flow w r) (hi : i < r.n) (hended : w.ended (r.childId i) = none)
    (hchild : r.Child i st) : ∀ p ∈ st.parentReq.bind w.parents,
      st.requestId ∈ p.childRequests ∧ p.childRequests.Nodup := by
  intro p hp
  rw [hchild.parentReq] at hp
  split at hp
  · cases hp
  · rename_i hn
    obtain ⟨p', hp', hid, hnodup, hmem⟩ := h.parent hn
    obtain rfl : p' = p := Option.some.inj (hp'.symm.trans hp)
    exact ⟨(hmem _).mpr ⟨i, hi, hchild.requestId, hchild.requestId ▸ hended⟩, hnodup⟩

theorem Flow.collector_finished (h : Flow w r) (hi : i < r.n) (hended : w.ended (r.childId i) = none) :
    (w.collectors r.requestId).finished = false :=
  (h.unfinished fun hdone => hdone i hi hended).1

theorem Flow.unsent (h : Flow w r) (hi : i < r.n) (hended : w.ended (r.childId i) = none)
    (hchild : r.Child i st) (hup : st.Updated l (chunks (w.pieces r.requestId) i) new)
    (hheld : st.detokenizer.Held) (hsafe : RefsSafe w r i l) (hsends : st.sends none = false) :
    Sent w { w with
      logprobs := Function.update w.logprobs (r.childId i) l
      parents := storeParent w.parents (st.parentReq.bind w.parents) } r i l st false := by
  have hkeeps := hsafe.keeps h hi
  have hparent := h.mem_parent hi hended hchild
  have htold : ∀ pr, st.parentReq.bind w.parents = some pr →
      ∃ pr', st.parentReq.bind w.parents = some pr' ∧ Told st.requestId false pr pr' :=
    fun pr hpr => ⟨pr, hpr, rfl, (hparent pr hpr).2, by simp⟩
  obtain ⟨hothers, hpar⟩ := h.told hchild (fun h => h) htold
  have hpieces : (w.received r.requestId).flatMap (·.outputs) ++
      (w.collectors r.requestId).waiting.map
        (·.seen (Function.update w.logprobs (r.childId i) l)) = w.pieces r.requestId := by
    rw [pieces, map_seen_congr hkeeps]
  refine ⟨rfl, rfl, rfl, rfl, rfl, rfl, rfl, fun _ _ => rfl, hothers, hchild, h.collector, h.index,
    ?_, ?_, ?_, nofun, ?_, ?_⟩
  · intro p hp id hid
    obtain ⟨hidx, hnil⟩ := h.refs p hp id hid
    exact ⟨hidx, (hkeeps p hp id hid).trans hnil⟩
  · intro j _
    exact congrArg (chunks · j) hpieces
  · intro _
    refine (congrArg (fun x => RequestState.Cut _ l (chunks x i)) hpieces).mpr ?_
    exact hup.cut hheld hsends
  · show (w.collectors r.requestId).finished = true ↔ _
    rw [h.collector_finished hi hended]
    simp
  · intro hn
    obtain ⟨p, -, hp, hrest⟩ := hpar hn
    exact ⟨p, hp, hrest⟩

theorem Flow.mergeable (h : Flow w r) (hsafe : RefsSafe w r i l) (hi : i < r.n)
    (hreasons : (chunks (w.pieces r.requestId) i).finishReasons = [])
    {p : CompletionOutput (LogprobsRef E)} (hindex : p.index = i)
    (hempty : l = [] → (p.seen (Function.update w.logprobs (r.childId i) l)).chunk.logprobs = []) :
    ∀ p' ∈ (w.collectors r.requestId).waiting, p'.index = p.index →
      Mergeable (Function.update w.logprobs (r.childId i) l) p' p := by
  intro p' hp' hidx
  rw [hindex] at hidx
  refine ⟨?_, fun id hid => hempty ?_⟩
  · exact finishReason_of_chunks hreasons (List.mem_append_right _ (List.mem_map_of_mem hp')) hidx
  · obtain ⟨hcid, hnil⟩ := h.refs p' hp' id hid
    have hkept := hsafe.keeps h hi p' hp' id hid
    rw [hcid, hidx, Function.update_self] at hkept
    rw [hcid, hidx] at hnil
    exact hkept.trans hnil

theorem Flow.finished_iff (h : Flow w r) (hi : i < r.n) (hended : w.ended (r.childId i) = none)
    (hchild : r.Child i st) {finished last : Bool} {parent' : Option ParentRequest}
    (hsingle : st.parentReq.bind w.parents = none → parent' = none ∧ last = finished)
    (htold : ∀ pr, st.parentReq.bind w.parents = some pr → ∃ pr', parent' = some pr' ∧
      (last = true ↔ pr'.childRequests = []) ∧ Told st.requestId finished pr pr') :
    last = true ↔ finished = true ∧ ∀ j < r.n, j ≠ i → w.ended (r.childId j) ≠ none := by
  by_cases hn : r.n = 1
  · have hnone : st.parentReq.bind w.parents = none := by
      rw [hchild.parentReq, if_pos hn]
      rfl
    rw [(hsingle hnone).2]
    refine (and_iff_left fun j hj hne => ?_).symm
    omega
  · obtain ⟨pr, hpr, -⟩ := h.parent hn
    have hsome : st.parentReq.bind w.parents = some pr := by
      rw [hchild.parentReq, if_neg hn]
      exact hpr
    obtain ⟨-, hpar⟩ := h.told hchild (fun h => (hsingle h).1) fun pr hpr => by
      obtain ⟨pr', hpr', -, htold⟩ := htold pr hpr
      exact ⟨pr', hpr', htold⟩
    obtain ⟨pr', hpr', hfin, -⟩ := htold pr hsome
    obtain ⟨q, hq, -, -, -, hmemq⟩ := hpar hn
    obtain rfl : pr' = q := Option.some.inj (hpr'.symm.trans hq)
    rw [hfin]
    exact childless_iff hi hended hmemq

theorem Flow.put (h : Flow w r) (hi : i < r.n) (hended : w.ended (r.childId i) = none)
    (hchild : r.Child i st) (hchild' : r.Child i st')
    (hreasons : (chunks (w.pieces r.requestId) i).finishReasons = []) (hsafe : RefsSafe w r i l)
    {o : RequestOutput (LogprobsRef E) K} {p : CompletionOutput (LogprobsRef E)} {finished : Bool}
    {lists' : LogprobsLists E} {c' : RequestOutputCollector E K}
    {parent' : Option ParentRequest}
    (hout : o.outputs = [p]) (hindex : p.index = i)
    (hproc : ∀ id, p.logprobs = some (.processor id) →
      id = r.childId i ∧ Function.update w.logprobs (r.childId i) l id = [])
    (hempty : l = [] → (p.seen (Function.update w.logprobs (r.childId i) l)).chunk.logprobs = [])
    (hcut : finished = false → st'.Cut l (chunks (w.pieces r.requestId) i ++
      (p.seen (Function.update w.logprobs (r.childId i) l)).chunk))
    (hwhole : finished = true → st'.Whole l (chunks (w.pieces r.requestId) i ++
      (p.seen (Function.update w.logprobs (r.childId i) l)).chunk))
    (hsingle : st.parentReq.bind w.parents = none → parent' = none ∧ o.finished = finished)
    (htold : ∀ pr, st.parentReq.bind w.parents = some pr → ∃ pr', parent' = some pr' ∧
      (o.finished = true ↔ pr'.childRequests = []) ∧ Told st.requestId finished pr pr')
    (hput : (w.collectors r.requestId).put (Function.update w.logprobs (r.childId i) l) (.output o) =
      .ok (lists', c')) :
    Sent w { w with
      logprobs := lists'
      parents := storeParent w.parents parent'
      collectors := Function.update w.collectors r.requestId c' } r i l st' finished := by
  have hkeeps := hsafe.keeps h hi
  obtain ⟨hothers, hpar⟩ := h.told hchild (fun h => (hsingle h).1) fun pr hpr => by
    obtain ⟨pr', hpr', -, htold⟩ := htold pr hpr
    exact ⟨pr', hpr', htold⟩
  obtain ⟨rfl, hstream, hsome, hfinished, hchunks, hmem, hrefs⟩ :=
    RequestOutputCollector.put_spec h.collector hout (h.mergeable hsafe hi hreasons hindex hempty) hput
  have hpieces : ∀ j, chunks ((w.received r.requestId).flatMap (·.outputs) ++
      c'.waiting.map (·.seen (Function.update w.logprobs (r.childId i) l))) j =
      chunks (w.pieces r.requestId) j ++
        if j = i then (p.seen (Function.update w.logprobs (r.childId i) l)).chunk else .empty := by
    intro j
    rw [chunks_append, hchunks, map_seen_congr hkeeps, pieces, chunks_append, Chunk.append_assoc,
      chunks_cons, chunks_nil, Chunk.append_empty, CompletionOutput.seen_index, hindex]
    simp only [eq_comm]
  have hown := hpieces i
  rw [if_pos rfl] at hown
  have hself : Function.update w.collectors r.requestId c' r.requestId = c' := Function.update_self _ _ _
  refine ⟨rfl, rfl, rfl, rfl, rfl, rfl, rfl, fun queue hne => Function.update_of_ne hne _ _, hothers, hchild',
    ?_, ?_, ?_, ?_, ?_, ?_, ?_, fun hn => (hpar hn).imp fun _ h => h.2⟩ <;> dsimp only [pieces] <;> rw [hself]
  · exact hstream
  · intro x hx
    rcases hmem x hx with hidx | hold
    · rw [hidx, hindex]
      exact hi
    · exact h.index x hold
  · intro x hx id hid
    obtain ⟨y, hy, hyidx, hyid⟩ := hrefs x hx id hid
    rcases List.mem_cons.mp hy with rfl | hy
    · obtain ⟨rfl, hnil⟩ := hproc id hyid
      exact ⟨by rw [← hyidx, hindex], hnil⟩
    · obtain ⟨hcid, hnil⟩ := h.refs y hy id hyid
      exact ⟨hyidx ▸ hcid, (hkeeps y hy id hyid).trans hnil⟩
  · intro j hne
    refine (hpieces j).trans ?_
    rw [if_neg hne, Chunk.append_empty]
    rfl
  · intro hfin
    rw [hown]
    exact hcut hfin
  · intro hfin
    rw [hown]
    exact ⟨hwhole hfin, hsome⟩
  · rw [hfinished, h.collector_finished hi hended, Bool.false_or]
    exact h.finished_iff hi hended hchild hsingle htold

theorem send_spec (h : Flow w r) (hi : i < r.n) (hended : w.ended (r.childId i) = none)
    (hchild : r.Child i st) (hup : st.Updated l (chunks (w.pieces r.requestId) i) new)
    {finishReason : Option FinishReason} {stopReason : Option StopReason} {kv : Option K}
    (hheld : finishReason = none → st.detokenizer.Held)
    (hclean : st.numLogprobs ≠ none → st.sends finishReason = true → st.unsent new = [] → l = [])
    (hsafe : RefsSafe w r i l)
    (hsend : send { w with logprobs := Function.update w.logprobs (r.childId i) l } st new
      finishReason stopReason kv = .ok (w', st')) :
    Sent w w' r i l st' finishReason.isSome ∧ st.SameRequest st' := by
  have hlists : Function.update w.logprobs (r.childId i) l st.requestId = l := by
    rw [hchild.requestId, Function.update_self]
  unfold send at hsend
  dsimp only at hsend
  generalize hmake : st.makeRequestOutput (Function.update w.logprobs (r.childId i) l)
    (st.parentReq.bind w.parents) new finishReason stopReason kv = made at hsend
  obtain ⟨out, st₁, parent'⟩ := made
  dsimp only at hsend
  rcases makeRequestOutput_spec (h.mem_parent hi hended hchild) hmake with
    ⟨hsends, rfl, rfl, rfl⟩ | ⟨hsends, o, p, rfl, hout, hnew, hsingle, htold⟩
  · -- an output that ends a request is always sent
    have hfin : finishReason = none := by
      cases finishReason with
      | none => rfl
      | some reason => simp [RequestState.sends] at hsends
    subst hfin
    cases hsend
    exact ⟨h.unsent hi hended hchild hup (hheld rfl) hsafe hsends, ⟨rfl, rfl, rfl, rfl, rfl, rfl, rfl⟩⟩
  · dsimp only at hsend
    rw [Result.bind_eq_ok] at hsend
    obtain ⟨⟨lists', c'⟩, hput, hsend⟩ := hsend
    obtain ⟨hsame, hindex, hreason, hproc, hempty, hcut, hwhole⟩ :=
      RequestState.newCompletionOutput_spec hup hlists (fun hsome => hclean hsome hsends) hnew
    rw [(hchild.same hsame).queue] at hput hsend
    rw [hchild.requestIndex] at hindex
    rw [hchild.requestId] at hproc
    have hp : p.finishReason.isSome = finishReason.isSome := by
      rw [hreason, Option.isSome_map]
    rw [hp] at htold
    cases hsend
    refine ⟨h.put hi hended hchild (hchild.same hsame) hup.finishReasons hsafe hout hindex hproc hempty ?_ ?_ hsingle
      htold hput, hsame⟩
    · intro hfin
      rw [Option.isSome_eq_false_iff, Option.isNone_iff_eq_none] at hfin
      exact hcut hfin (hheld hfin)
    · exact fun hfin => hwhole (Option.isSome_iff_ne_none.mp hfin)

end Send

structure Settled (w w' : OutputProcessor D E K) (r : NewRequest D) (i : Nat)
    (st' : RequestState D) (finished : Bool) : Prop where
  streamInterval : w'.streamInterval = w.streamInterval
  collectors : w'.collectors = w.collectors
  received : w'.received = w.received
  parents : w'.parents = w.parents
  logprobs : w'.logprobs = w.logprobs
  requests : w'.requests = w.requests
  parentRequests : w'.parentRequests ⊆ w.parentRequests
  requestStates : ∀ id, w'.requestStates.get? id =
    if id = r.childId i then if finished then none else some st' else w.requestStates.get? id
  ended : ∀ id, w'.ended id =
    if id = r.childId i ∧ finished = true then some st' else w.ended id

section Settle

variable {w'' : OutputProcessor D E K} {l : List E} {st' : RequestState D} {finished : Bool}
  {r' : NewRequest D}

theorem Sent.ended_other (hs : Sent w w' r i l st' finished) (hset : Settled w' w'' r i st' finished)
    (hi : i < r.n) : ∀ j < r.n, j ≠ i → w''.ended (r.childId j) = w.ended (r.childId j) := by
  intro j hj hji
  rw [hset.ended, if_neg (fun h => hji (NewRequest.childId_inj hj hi h.1)), hs.ended]

theorem Sent.done_iff (hs : Sent w w' r i l st' finished) (hset : Settled w' w'' r i st' finished)
    (hi : i < r.n) (hended : w.ended (r.childId i) = none) :
    w''.Done r ↔ finished = true ∧ ∀ j < r.n, j ≠ i → w.ended (r.childId j) ≠ none := by
  constructor
  · intro hdone
    refine ⟨?_, fun j hj hji => ?_⟩
    · by_contra hfin
      refine hdone i hi ?_
      rw [hset.ended, if_neg (fun h => hfin h.2), hs.ended, hended]
    · rw [← hs.ended_other hset hi j hj hji]
      exact hdone j hj
  · rintro ⟨hfin, hothers⟩ j hj
    by_cases hji : j = i
    · rw [hset.ended, if_pos ⟨by rw [hji], hfin⟩]
      nofun
    · rw [hs.ended_other hset hi j hj hji]
      exact hothers j hj hji

theorem Sent.knowsChildren (hs : Sent w w' r i l st' finished) (hset : Settled w' w'' r i st' finished)
    (hn : r.n ≠ 1) : ∃ p, w''.parents r.requestId = some p ∧ w''.KnowsChildren r p := by
  obtain ⟨p, hp, hid, hnodup, hmem⟩ := hs.parent hn
  refine ⟨p, ?_, hid, hnodup, fun id => ?_⟩
  · rw [hset.parents]
    exact hp
  · rw [hmem, hset.ended, hs.ended]
    constructor
    · rintro ⟨⟨j, hj, hidj, hnone⟩, hnot⟩
      exact ⟨j, hj, hidj, by rw [if_neg (fun h => hnot ⟨h.2, h.1⟩), hnone]⟩
    · rintro ⟨j, hj, hidj, hnone⟩
      split at hnone
      · cases hnone
      · rename_i hnot
        exact ⟨⟨j, hj, hidj, hnone⟩, fun h => hnot ⟨h.2, h.1⟩⟩

theorem Sent.flow (hs : Sent w w' r i l st' finished) (hset : Settled w' w'' r i st' finished)
    (h : Flow w r) (hi : i < r.n) (hended : w.ended (r.childId i) = none) : Flow w'' r := by
  have hlive : ¬ w.Done r := fun hdone => hdone i hi hended
  have hpieces : w''.pieces r.requestId = w'.pieces r.requestId := by
    rw [pieces, pieces, hset.received, hset.collectors, hset.logprobs]
  have hne : ∀ j, j < r.n → j ≠ i → r.childId j ≠ r.childId i :=
    fun j hj hji hid => hji (NewRequest.childId_inj hj hi hid)
  have hothers := hs.ended_other hset hi
  have hdone := hs.done_iff hset hi hended
  have hunreceived : ∀ o ∈ w''.received r.requestId, o.finished = false := by
    rw [hset.received, hs.received]
    exact (h.unfinished hlive).2
  refine ⟨?_, ?_, ?_, ?_, ?_, hs.knowsChildren hset, ?_, ?_⟩
  · rw [hset.collectors]
    exact hs.collector
  · rw [hset.collectors]
    exact hs.index
  · rw [hset.collectors, hset.logprobs]
    exact hs.refs
  · intro j hj st hst
    rw [hset.requestStates] at hst
    by_cases hji : j = i
    · subst hji
      rw [if_pos rfl] at hst
      split at hst
      · cases hst
      · rename_i hfin
        cases hst
        rw [Bool.not_eq_true] at hfin
        refine ⟨?_, hs.child, ?_⟩
        · rw [hset.ended, if_neg (by simp [hfin]), hs.ended, hended]
        · rw [hset.logprobs, hs.logprobs, Function.update_self, hpieces]
          exact hs.cut hfin
    · rw [if_neg (hne j hj hji), hs.requestStates] at hst
      rw [hothers j hj hji, hset.logprobs, hs.logprobs,
        Function.update_of_ne (hne j hj hji), hpieces, hs.others j hji]
      exact h.live j hj st hst
  · intro j hj hnone
    rw [hset.requestStates] at hnone
    by_cases hji : j = i
    · subst hji
      rw [if_pos rfl] at hnone
      split at hnone
      · rename_i hfin
        refine ⟨st', ?_, hs.child, ?_⟩
        · rw [hset.ended, if_pos ⟨rfl, hfin⟩]
        · rw [hset.logprobs, hs.logprobs, Function.update_self, hpieces]
          exact (hs.whole hfin).1
      · cases hnone
    · rw [if_neg (hne j hj hji), hs.requestStates] at hnone
      rw [hothers j hj hji, hset.logprobs, hs.logprobs,
        Function.update_of_ne (hne j hj hji), hpieces, hs.others j hji]
      exact h.ended j hj hnone
  · intro hnot
    rw [hdone, ← hs.flag, Bool.not_eq_true] at hnot
    rw [hset.collectors]
    exact ⟨hnot, hunreceived⟩
  · intro hyes
    rw [hdone] at hyes
    rw [hset.collectors]
    exact .inl ⟨(hs.whole hyes.1).2, hs.flag.mpr hyes, hunreceived⟩

theorem Sent.other (hs : Sent w w' r i l st' finished) (hset : Settled w' w'' r i st' finished)
    (h : Flow w r') (hi : i < r.n) (hids : List.Disjoint r.ids r'.ids) : Flow w'' r' := by
  have hqueue : r'.requestId ≠ r.requestId :=
    fun heq => hids List.mem_cons_self (heq ▸ List.mem_cons_self)
  have hchild : ∀ j < r'.n, r'.childId j ≠ r.childId i :=
    fun j hj heq => hids (NewRequest.childId_mem hi) (heq ▸ NewRequest.childId_mem hj)
  refine h.congr ⟨?_, ?_, fun _ => ?_, fun j hj => ?_, fun j hj => ?_, fun j hj => ?_⟩
  · rw [hset.collectors, hs.collectors _ hqueue]
  · rw [hset.received, hs.received]
  · rw [hset.parents, hs.parents _ hqueue]
  · rw [hset.requestStates, if_neg (hchild j hj), hs.requestStates]
  · rw [hset.ended, if_neg (fun h => hchild j hj h.1), hs.ended]
  · rw [hset.logprobs, hs.logprobs, Function.update_of_ne (hchild j hj)]

end Settle

end OutputProcessor

end Vllm.Frontend
