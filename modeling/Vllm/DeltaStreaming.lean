import Vllm.DeltaFlow
import Vllm.Lib.Run

namespace Vllm.Frontend

variable {D R E K : Type}

namespace RequestState

def Repeats (st : RequestState D) (newTokenIds : List Int) (finished : Bool) : Prop :=
  st.numLogprobs ≠ none ∧ st.detokenizer.outputTokenIds ≠ [] ∧ newTokenIds = [] ∧
    (st.streamInterval ≤ 1 ∨
      finished = true ∧ st.sentTokensOffset = st.detokenizer.numOutputTokens)

instance (st : RequestState D) (newTokenIds : List Int) (finished : Bool) :
    Decidable (st.Repeats newTokenIds finished) :=
  inferInstanceAs (Decidable (_ ∧ _ ∧ _ ∧ _))

def Overtakes (st : RequestState D) (c : RequestOutputCollector E K) (newTokenIds : List Int) :
    Prop :=
  st.numLogprobs ≠ none ∧ st.detokenizer.outputTokenIds = [] ∧ newTokenIds ≠ [] ∧
    ∃ p ∈ c.waiting, p.index = st.requestIndex

instance (st : RequestState D) (c : RequestOutputCollector E K) (newTokenIds : List Int) :
    Decidable (st.Overtakes c newTokenIds) :=
  inferInstanceAs (Decidable (_ ∧ _ ∧ _ ∧ _))

end RequestState

namespace OutputProcessor

inductive Op (D R K : Type)
  | addRequest (r : NewRequest D)
  | processOutputs (outputs : List (EngineCoreOutput R K))
  | abortRequests (requestIds : List ReqId) (internal : Bool)
  | get (queue : ReqId)

def init (streamInterval : Nat) : OutputProcessor D E K where
  streamInterval
  requestStates := .empty
  parentRequests := []
  externalReqIds := .empty
  parents := fun _ => none
  collectors := fun _ => { aggregate := true, output := none }
  logprobs := fun _ => []
  received := fun _ => []
  ended := fun _ => none
  requests := []

def recursionLimit : Nat := 1000

def step (t : Tokenizer D R E) (w : OutputProcessor D E K) :
    Op D R K → Result (OutputProcessor D E K)
  | .addRequest r => .ok (w.addRequest r)
  | .processOutputs outputs => Prod.fst <$> w.processOutputs t outputs
  | .abortRequests requestIds internal =>
    Prod.fst <$> abortRequests recursionLimit w requestIds internal
  | .get queue => w.get queue

def outputStep (t : Tokenizer D R E) (w : OutputProcessor D E K) (o : EngineCoreOutput R K) :
    Result (OutputProcessor D E K) := Prod.fst <$> w.processOutput t o

def RowsComplete (w : OutputProcessor D E K) (o : EngineCoreOutput R K) : Prop :=
  ∀ st ∈ w.requestStates.get? o.requestId, st.numLogprobs ≠ none →
    (o.newLogprobs.getD []).length = o.newTokenIds.length

/-- What the callers promise: new requests have new ids, and only consumers of requests get. -/
def Allowed (t : Tokenizer D R E) (w : OutputProcessor D E K) : Op D R K → Prop
  | .addRequest r => 1 ≤ r.n ∧ ∀ r' ∈ w.requests, ∀ id ∈ r.ids, id ∉ r'.ids
  | .processOutputs outputs => Guarded (outputStep t) RowsComplete w outputs
  | .abortRequests _ _ => True
  | .get queue => ∃ r ∈ w.requests, r.requestId = queue

def OutputClean (w : OutputProcessor D E K) (o : EngineCoreOutput R K) : Prop :=
  ∀ st ∈ w.requestStates.get? o.requestId,
    ¬ st.Repeats o.newTokenIds o.finishReason.isSome ∧
      ¬ st.Overtakes (w.collectors st.queue) o.newTokenIds

def family (w : OutputProcessor D E K) (id : ReqId) : List ReqId :=
  id :: if id ∈ w.parentRequests then ((w.parents id).map (·.childRequests)).getD [] else []

def targets (w : OutputProcessor D E K) (requestIds : List ReqId) (internal : Bool) :
    List ReqId :=
  (if internal then requestIds
    else requestIds.flatMap fun id => w.externalReqIds.getD id []).flatMap w.family

def Quiet (w : OutputProcessor D E K) (id : ReqId) : Prop :=
  ∀ st ∈ w.requestStates.get? id, ¬ st.Repeats [] true

/-- No step sends a piece of a child with logprobs that carries no tokens though it has some, and
none brings the first tokens of a child while an earlier piece of it waits. -/
def Clean (t : Tokenizer D R E) (w : OutputProcessor D E K) : Op D R K → Prop
  | .processOutputs outputs => Guarded (outputStep t) OutputClean w outputs
  | .abortRequests requestIds internal => ∀ id ∈ w.targets requestIds internal, w.Quiet id
  | _ => True

structure ChildDelivered (w : OutputProcessor D E K) (st : RequestState D)
    (received : List (CompletionOutput (List E))) : Prop where
  text : received.flatMap (·.text) = st.detokenizer.outputText
  tokenIds : received.flatMap (·.tokenIds) = st.detokenizer.outputTokenIds
  logprobs : st.numLogprobs ≠ none →
    received.flatMap (·.logprobs.getD []) = w.logprobs st.requestId ∧
      (w.logprobs st.requestId).length = st.detokenizer.outputTokenIds.length
  finish : received.countP (·.finishReason.isSome) = 1

/-- Once all children have ended and the consumer has got everything, it has what they produced,
and it was told the end with the last output only. -/
def Delivered (w : OutputProcessor D E K) (r : NewRequest D) : Prop :=
  w.Done r → (w.collectors r.requestId).output = none →
    (∀ i < r.n, ∀ st ∈ w.ended (r.childId i), w.ChildDelivered st
      (ofIndex ((w.received r.requestId).flatMap (·.outputs)) i)) ∧
    ∃ l o, w.received r.requestId = l ++ [o] ∧ o.finished = true ∧
      ∀ o' ∈ l, o'.finished = false

structure Inv (w : OutputProcessor D E K) : Prop where
  flow : ∀ r ∈ w.requests, w.Flow r
  disjoint : ∀ r ∈ w.requests, ∀ r' ∈ w.requests, r = r' ∨ List.Disjoint r.ids r'.ids
  owned : ∀ id st, w.requestStates.get? id = some st →
    ∃ r ∈ w.requests, ∃ i < r.n, id = r.childId i
  parents : ∀ id ∈ w.parentRequests, ∃ r ∈ w.requests, r.n ≠ 1 ∧ id = r.requestId
  fresh : ∀ id, (∀ r ∈ w.requests, id ∉ r.ids) → w.received id = [] ∧ w.ended id = none

section Kid

variable {w w' w'' : OutputProcessor D E K} {r : NewRequest D} {i : Nat} {l : List E}
  {st st' : RequestState D}

theorem Inv.settle (h : Inv w) (hr : r ∈ w.requests) (hi : i < r.n)
    (hended : w.ended (r.childId i) = none) {finished : Bool} (hs : Sent w w' r i l st' finished)
    (hset : Settled w' w'' r i st' finished) : Inv w'' := by
  have hreq : w''.requests = w.requests := hset.requests.trans hs.requests
  refine ⟨?_, ?_, ?_, ?_, ?_⟩
  · rw [hreq]
    intro r' hr'
    rcases h.disjoint r hr r' hr' with rfl | hids
    · exact hs.flow hset (h.flow r hr) hi hended
    · exact hs.other hset (h.flow r' hr') hi hids
  · rw [hreq]
    exact h.disjoint
  · rw [hreq]
    intro id st hst
    rw [hset.requestStates] at hst
    split at hst
    · rename_i hid
      exact ⟨r, hr, i, hi, hid⟩
    · rw [hs.requestStates] at hst
      exact h.owned id st hst
  · rw [hreq]
    intro id hid
    have hid := hset.parentRequests hid
    rw [hs.parentRequests] at hid
    exact h.parents id hid
  · rw [hreq]
    intro id hid
    have hne : id ≠ r.childId i := fun heq => hid r hr (heq ▸ NewRequest.childId_mem hi)
    rw [hset.received, hs.received, hset.ended, if_neg (fun h => hne h.1), hs.ended]
    exact h.fresh id hid

theorem popState_settled (hchild : r.Child i st') {externalReqIds : Dict ReqId (List ReqId)}
    {parentRequests : List ReqId} (hparents : parentRequests ⊆ w'.parentRequests) :
    Settled w' { w'.popState st' with externalReqIds, parentRequests } r i st' true := by
  refine ⟨rfl, rfl, rfl, rfl, rfl, rfl, hparents, fun id => ?_, fun id => ?_⟩
  · show (w'.requestStates.erase st'.requestId).get? id = _
    rw [Dict.get?_erase, hchild.requestId, if_pos rfl]
    simp only [eq_comm]
  · show Function.update w'.ended st'.requestId (some st') id = _
    rw [hchild.requestId, Function.update_apply]
    simp

theorem removeInternal_spec {externalReqId requestId : ReqId}
    (h : w.removeInternal externalReqId requestId = .ok w') :
    ∃ externalReqIds, w' = { w with externalReqIds } := by
  unfold removeInternal at h
  dsimp only at h
  split at h
  · cases h
    exact ⟨_, rfl⟩
  · cases h

theorem finishRequest_spec (hchild : r.Child i st') (h : w'.finishRequest st' = .ok w'') :
    Settled w' w'' r i st' true := by
  unfold finishRequest at h
  rw [Result.bind_eq_ok] at h
  obtain ⟨w₁, hremove, h⟩ := h
  obtain ⟨externalReqIds, rfl⟩ := removeInternal_spec hremove
  split at h
  · split at h
    · cases h
      exact popState_settled hchild List.erase_subset
    · cases h
      exact popState_settled hchild (List.Subset.refl _)
  · cases h
    exact popState_settled hchild (List.Subset.refl _)

theorem set_settled (hchild : r.Child i st') :
    Settled w' { w' with requestStates := w'.requestStates.set st'.requestId st' } r i st' false := by
  refine ⟨rfl, rfl, rfl, rfl, rfl, rfl, List.Subset.refl _, fun id => ?_, fun id => ?_⟩
  · show (w'.requestStates.set st'.requestId st').get? id = _
    rw [Dict.get?_set, hchild.requestId, if_neg Bool.false_ne_true]
    simp only [eq_comm]
  · rw [if_neg (by simp)]

theorem Inv.served (h : Inv w) {id : ReqId} (hst : w.requestStates.get? id = some st) :
    ∃ r ∈ w.requests, ∃ i < r.n, id = r.childId i ∧ w.ended (r.childId i) = none ∧
      r.Child i st ∧ st.Cut (w.logprobs (r.childId i)) (chunks (w.pieces r.requestId) i) := by
  obtain ⟨r, hr, i, hi, rfl⟩ := h.owned id st hst
  obtain ⟨hended, hchild, hcut⟩ := (h.flow r hr).live i hi st hst
  exact ⟨r, hr, i, hi, rfl, hended, hchild, hcut⟩

theorem updateLogprobs_spec {t : Tokenizer D R E} {newLogprobs : Option (List R)}
    (h : w.updateLogprobs t st newLogprobs = .ok w') :
    ∃ extra, extra.length = (newLogprobs.getD []).length ∧ (st.numLogprobs = none → extra = []) ∧
      w' = { w with
        logprobs := Function.update w.logprobs st.requestId
          (w.logprobs st.requestId ++ extra) } := by
  have hfold : ∀ (rows : List R) (l : List E), ∃ extra, extra.length = rows.length ∧
      rows.foldl (fun l row => l ++ [t.logprobsEntry l row]) l = l ++ extra := by
    intro rows
    induction rows with
    | nil => exact fun l => ⟨[], rfl, by simp⟩
    | cons row rows ih =>
      intro l
      obtain ⟨extra, hlen, heq⟩ := ih (l ++ [t.logprobsEntry l row])
      refine ⟨t.logprobsEntry l row :: extra, ?_, ?_⟩
      · rw [List.length_cons, List.length_cons, hlen]
      · rw [List.foldl_cons, heq, List.append_assoc, List.singleton_append]
  unfold updateLogprobs at h
  split at h
  · cases h
    refine ⟨[], rfl, fun _ => rfl, ?_⟩
    rw [List.append_nil, Function.update_eq_self]
  · rename_i rows
    split at h
    · cases h
    · rename_i hsome
      cases h
      obtain ⟨extra, hlen, heq⟩ := hfold rows (w.logprobs st.requestId)
      exact ⟨extra, hlen, fun hnone => absurd hnone hsome, by rw [heq]⟩

theorem clean_of_not_repeats {sent : Chunk E} {extra : List E} {new : List Int}
    {detokenizer : IncrementalDetokenizer D} {numCachedTokens : Nat} {finishReason : Option FinishReason}
    {finished : Bool} (hcut : st.Cut l sent)
    (htokens : detokenizer.outputTokenIds = st.detokenizer.outputTokenIds ++ new)
    (hextra : st.numLogprobs ≠ none → extra.length = new.length)
    (hfinish : new = [] → finishReason.isSome = finished) (hclean : ¬ st.Repeats new finished)
    (hsome : st.numLogprobs ≠ none)
    (hsends : RequestState.sends { st with detokenizer, numCachedTokens } finishReason = true)
    (hunsent : RequestState.unsent { st with detokenizer, numCachedTokens } new = []) :
    l ++ extra = [] := by
  have hrows := hcut.rows hsome
  have hoffset := hcut.offset
  have hlen := congrArg List.length htokens
  rw [List.length_append, IncrementalDetokenizer.length_outputTokenIds,
    IncrementalDetokenizer.length_outputTokenIds] at hlen
  -- there are no new tokens, and none that wait to be sent
  have hnew : new = [] ∧
      (1 < st.streamInterval → st.sentTokensOffset = st.detokenizer.numOutputTokens) := by
    rw [RequestState.unsent] at hunsent
    split at hunsent
    · have hle := List.drop_eq_nil_iff.mp hunsent
      rw [IncrementalDetokenizer.length_outputTokenIds] at hle
      change detokenizer.numOutputTokens ≤ st.sentTokensOffset at hle
      exact ⟨List.length_eq_zero_iff.mp (by omega), fun _ => by omega⟩
    · rename_i hinterval
      exact ⟨hunsent, fun h => absurd h hinterval⟩
  obtain ⟨rfl, hsent⟩ := hnew
  have hextra := List.length_eq_zero_iff.mp (hextra hsome)
  rw [hextra, List.append_nil, ← List.length_eq_zero_iff, hrows]
  by_contra hne
  have htok : st.detokenizer.outputTokenIds ≠ [] := by
    intro hnil
    rw [← IncrementalDetokenizer.length_outputTokenIds, hnil] at hne
    exact hne rfl
  refine hclean ⟨hsome, htok, rfl, ?_⟩
  by_cases hinterval : st.streamInterval ≤ 1
  · exact .inl hinterval
  · have hall := hsent (by omega)
    refine .inr ⟨?_, hall⟩
    rw [← hfinish rfl]
    simp only [RequestState.sends, Bool.or_eq_true, decide_eq_true_eq, beq_iff_eq] at hsends
    rcases hsends with ((h | h) | h) | h
    · exact absurd h hinterval
    · exact h
    · omega
    · rw [List.length_nil, Nat.add_zero] at hlen
      omega

theorem outputStep_inv {t : Tokenizer D R E} {o : EngineCoreOutput R K} (h : Inv w)
    (hrows : w.RowsComplete o) (hclean : w.OutputClean o) (hok : outputStep t w o = .ok w') :
    Inv w' := by
  rw [outputStep, Result.map_eq_ok] at hok
  obtain ⟨⟨w₁, aborts⟩, hok, rfl⟩ := hok
  unfold processOutput at hok
  split at hok
  · cases hok
    exact h
  rename_i st hst
  obtain ⟨r, hr, i, hi, hid, hended, hchild, hcut⟩ := h.served hst
  have hrows := hrows st hst
  obtain ⟨hrepeats, hovertakes⟩ := hclean st hst
  generalize hupdate : st.detokenizer.update t.decodeNext o.newTokenIds
    (decide (o.finishReason = some .stop)) = updated at hok
  obtain ⟨detokenizer, stopString⟩ := updated
  dsimp only at hok
  rw [Result.bind_eq_ok] at hok
  obtain ⟨w₂, hlog, hok⟩ := hok
  obtain ⟨extra, hlen, hnone, rfl⟩ := updateLogprobs_spec hlog
  rw [Result.bind_eq_ok] at hok
  obtain ⟨⟨w₃, st'⟩, hsend, hok⟩ := hok
  dsimp only at hsend hok hnone
  have hlists : Function.update w.logprobs st.requestId (w.logprobs st.requestId ++ extra) =
      Function.update w.logprobs (r.childId i) (w.logprobs (r.childId i) ++ extra) := by
    rw [hchild.requestId]
  rw [hlists] at hsend
  have hextra : st.numLogprobs ≠ none → extra.length = o.newTokenIds.length :=
    fun hsome => hlen.trans (hrows hsome)
  obtain ⟨htokens, -, -, -⟩ := IncrementalDetokenizer.update_spec hcut.held hupdate
  obtain ⟨hup, hheld⟩ := hcut.update o.numCachedTokens hupdate hextra
  have hstop : o.newTokenIds = [] → stopString = none := by
    intro hnil
    rw [hnil, IncrementalDetokenizer.update_nil] at hupdate
    exact (congrArg Prod.snd hupdate).symm
  have hsafe : RefsSafe w r i (w.logprobs (r.childId i) ++ extra) := by
    by_cases hex : extra = []
    · left
      rw [hex, List.append_nil]
    right
    have hsome : st.numLogprobs ≠ none := fun hn => hex (hnone hn)
    have hnew : o.newTokenIds ≠ [] := by
      intro hnil
      have := hextra hsome
      rw [hnil] at this
      exact hex (List.length_eq_zero_iff.mp this)
    intro p hp hpi id hproc
    obtain ⟨hcid, hnil⟩ := (h.flow r hr).refs p hp id hproc
    rw [hcid, hpi] at hnil
    have hzero := hcut.rows hsome
    rw [hnil, ← IncrementalDetokenizer.length_outputTokenIds] at hzero
    refine hovertakes ⟨hsome, List.length_eq_zero_iff.mp hzero.symm, hnew, p, ?_, ?_⟩
    · rw [hchild.queue]
      exact hp
    · rw [hchild.requestIndex]
      exact hpi
  generalize hfinish : (if stopString.isSome then some FinishReason.stop else o.finishReason) =
    finishReason at hsend hok
  have hfinishNil : o.newTokenIds = [] → finishReason.isSome = o.finishReason.isSome := by
    intro hnil
    rw [← hfinish, hstop hnil]
    rfl
  have hheld' : finishReason = none → detokenizer.Held := by
    intro hfin
    refine hheld ?_
    cases stopString with
    | none => rfl
    | some s => simp [hfin] at hfinish
  have hchild' : r.Child i { st with detokenizer, numCachedTokens := o.numCachedTokens } :=
    ⟨hchild.requestId, hchild.requestIndex, hchild.queue, hchild.parentReq⟩
  obtain ⟨hs, -⟩ := send_spec (h.flow r hr) hi hended hchild' hup hheld'
    (fun hsome => clean_of_not_repeats hcut htokens hextra hfinishNil hrepeats hsome) hsafe hsend
  cases hfin : finishReason.isSome with
  | true =>
    rw [hfin] at hok hs
    rw [if_pos rfl, Result.bind_eq_ok] at hok
    obtain ⟨w₄, hend, hok⟩ := hok
    cases hok
    exact h.settle hr hi hended hs (finishRequest_spec hs.child hend)
  | false =>
    rw [hfin] at hok hs
    cases hok
    exact h.settle hr hi hended hs (set_settled hs.child)

end Kid

section Ops

variable {w w' w'' : OutputProcessor D E K} {r : NewRequest D}

theorem processOutputs_inv {t : Tokenizer D R E} {outputs : List (EngineCoreOutput R K)}
    (h : Inv w) (hrows : Guarded (outputStep t) RowsComplete w outputs)
    (hclean : Guarded (outputStep t) OutputClean w outputs) {aborts : List ReqId}
    {w' : OutputProcessor D E K × List ReqId}
    (hok : outputs.foldlM (fun (w, aborts) o => do
      let (w, more) ← w.processOutput t o
      return (w, aborts ++ more)) (w, aborts) = .ok w') : Inv w'.1 := by
  induction outputs generalizing w aborts with
  | nil =>
    cases hok
    exact h
  | cons o outputs ih =>
    rw [List.foldlM_cons, Result.bind_eq_ok] at hok
    obtain ⟨⟨w₁, aborts₁⟩, hone, hrest⟩ := hok
    rw [Result.bind_eq_ok] at hone
    obtain ⟨⟨w₂, more⟩, hone, hpair⟩ := hone
    cases hpair
    have hstep : outputStep t w o = .ok w₁ := by
      rw [outputStep, hone]
      rfl
    exact ih (outputStep_inv h hrows.1 hclean.1 hstep) (hrows.2 w₁ hstep) (hclean.2 w₁ hstep) hrest

theorem Inv.rekey (h : Inv w) {externalReqIds : Dict ReqId (List ReqId)}
    {parentRequests : List ReqId} (hparents : parentRequests ⊆ w.parentRequests) :
    Inv { w with externalReqIds, parentRequests } where
  flow := fun r hr => (h.flow r hr).congr
    ⟨rfl, rfl, fun _ => rfl, fun _ _ => rfl, fun _ _ => rfl, fun _ _ => rfl⟩
  disjoint := h.disjoint
  owned := h.owned
  parents := fun id hid => h.parents id (hparents hid)
  fresh := h.fresh

structure Shrinks (w w' : OutputProcessor D E K) : Prop where
  requestStates : ∀ id st, w'.requestStates.get? id = some st →
    w.requestStates.get? id = some st
  parentRequests : w'.parentRequests ⊆ w.parentRequests
  ended : ∀ id, w'.ended id = none → w.ended id = none

theorem Shrinks.refl (w : OutputProcessor D E K) : Shrinks w w :=
  ⟨fun _ _ h => h, List.Subset.refl _, fun _ h => h⟩

theorem Shrinks.trans (h : Shrinks w w') (h' : Shrinks w' w'') : Shrinks w w'' where
  requestStates := fun id st hst => h.requestStates id st (h'.requestStates id st hst)
  parentRequests := fun _ hid => h.parentRequests (h'.parentRequests hid)
  ended := fun id hid => h.ended id (h'.ended id hid)

theorem Quiet.shrinks {id : ReqId} (h : w.Quiet id) (hs : Shrinks w w') : w'.Quiet id :=
  fun st hst => h st (hs.requestStates id st hst)

theorem send_requests {st st' : RequestState D} {new : List Int} {finishReason : Option FinishReason}
    {stopReason : Option StopReason} {kv : Option K}
    (h : w.send st new finishReason stopReason kv = .ok (w', st')) : w'.requests = w.requests := by
  unfold send at h
  dsimp only at h
  split at h
  · cases h
    rfl
  · rw [Result.bind_eq_ok] at h
    obtain ⟨_, -, h⟩ := h
    cases h
    rfl

theorem abortOne_inv (h : Inv w) {id : ReqId} {st st' : RequestState D}
    (hst : w.requestStates.get? id = some st) (hquiet : w.Quiet id)
    (hsend : w.send st [] (some .abort) none none = .ok (w', st')) :
    Inv (w'.popState st') ∧ Shrinks w (w'.popState st') := by
  obtain ⟨r, hr, i, hi, rfl, hended, hchild, hcut⟩ := h.served hst
  have hself : w = { w with
      logprobs := Function.update w.logprobs (r.childId i) (w.logprobs (r.childId i)) } := by
    rw [Function.update_eq_self]
  rw [hself] at hsend
  have hclean : st.numLogprobs ≠ none → st.sends (some .abort) = true → st.unsent [] = [] →
      w.logprobs (r.childId i) = [] := by
    intro hsome hsends hunsent
    have hfinished : ([] : List Int) = [] → (some FinishReason.abort).isSome = true := fun _ => rfl
    have hnil : w.logprobs (r.childId i) ++ [] = [] :=
      clean_of_not_repeats hcut (List.append_nil _).symm (fun _ => rfl) hfinished
        (hquiet st hst) hsome hsends hunsent
    rwa [List.append_nil] at hnil
  have hheld : some FinishReason.abort = none → st.detokenizer.Held := nofun
  obtain ⟨hs, -⟩ := send_spec (h.flow r hr) hi hended hchild hcut.updated hheld hclean
    (.inl rfl) hsend
  have hset : Settled w' (w'.popState st') r i st' true :=
    popState_settled hs.child (List.Subset.refl _)
  refine ⟨h.settle hr hi hended hs hset, ⟨fun id x hx => ?_, fun id hid => ?_, fun id hid => ?_⟩⟩
  · rw [hset.requestStates] at hx
    split at hx
    · cases hx
    · rwa [hs.requestStates] at hx
  · have hid := hset.parentRequests hid
    rwa [hs.parentRequests] at hid
  · rw [hset.ended] at hid
    split at hid
    · cases hid
    · rwa [hs.ended] at hid

theorem resolveIds_spec {internal : Bool} {requestIds ids : List ReqId}
    {res : OutputProcessor D E K × List ReqId}
    (hok : requestIds.foldlM (fun (w, ids) requestId => do
      let (w, more) ← w.resolveId internal requestId
      return (w, ids ++ more)) (w, ids) = .ok res) :
    (∃ externalReqIds, res.1 = { w with externalReqIds }) ∧
      ∀ id ∈ res.2, id ∈ ids ∨ id ∈ if internal then requestIds
        else requestIds.flatMap fun id => w.externalReqIds.getD id [] := by
  induction requestIds generalizing w ids with
  | nil =>
    cases hok
    exact ⟨⟨w.externalReqIds, rfl⟩, fun id hid => .inl hid⟩
  | cons requestId requestIds ih =>
    rw [List.foldlM_cons, Result.bind_eq_ok] at hok
    obtain ⟨⟨w₁, ids₁⟩, hone, hrest⟩ := hok
    rw [Result.bind_eq_ok] at hone
    obtain ⟨⟨w₂, more⟩, hone, hpair⟩ := hone
    cases hpair
    obtain ⟨⟨externalReqIds, hw⟩, hmem⟩ := ih hrest
    unfold resolveId at hone
    split at hone
    · rename_i hinternal
      subst hinternal
      rw [if_pos rfl] at hmem ⊢
      have hw₁ : (∃ externalReqIds, w₁ = { w with externalReqIds }) ∧ more = [requestId] := by
        split at hone
        · rw [Result.bind_eq_ok] at hone
          obtain ⟨w₃, hremove, hone⟩ := hone
          cases hone
          exact ⟨removeInternal_spec hremove, rfl⟩
        · cases hone
          exact ⟨⟨w.externalReqIds, rfl⟩, rfl⟩
      obtain ⟨⟨externalReqIds₁, rfl⟩, rfl⟩ := hw₁
      refine ⟨⟨externalReqIds, hw⟩, fun id hid => ?_⟩
      rcases hmem id hid with hid | hid
      · rcases List.mem_append.mp hid with hid | hid
        · exact .inl hid
        · exact .inr (List.mem_cons.mpr (.inl (List.mem_singleton.mp hid)))
      · exact .inr (List.mem_cons_of_mem _ hid)
    · rename_i hinternal
      rw [if_neg hinternal] at hmem ⊢
      cases hone
      refine ⟨⟨externalReqIds, hw⟩, fun id hid => ?_⟩
      rw [List.flatMap_cons]
      rcases hmem id hid with hid | hid
      · exact (List.mem_append.mp hid).imp_right (List.mem_append_left _)
      · refine .inr (List.mem_append_right _ ?_)
        obtain ⟨x, hx, hid⟩ := List.mem_flatMap.mp hid
        refine List.mem_flatMap.mpr ⟨x, hx, ?_⟩
        rw [Dict.getD, Dict.get?_erase] at hid
        split at hid
        · cases hid
        · exact hid

theorem Inv.child_notMem (h : Inv w) (hr : r ∈ w.requests) (hn : r.n ≠ 1) {i : Nat} (hi : i < r.n) :
    r.childId i ∉ w.parentRequests := by
  intro hmem
  obtain ⟨r', hr', -, hid⟩ := h.parents _ hmem
  rcases h.disjoint r hr r' hr' with rfl | hids
  · exact NewRequest.childId_ne_requestId hn i hid
  · exact hids (NewRequest.childId_mem hi) (hid ▸ List.mem_cons_self)

theorem Inv.family_children (h : Inv w) (h' : Inv w') (hs : Shrinks w w')
    (hreq : w'.requests = w.requests) {id : ReqId} (hid : id ∈ w'.parentRequests)
    {p : ParentRequest} (hp : w'.parents id = some p) :
    ∀ c ∈ p.childRequests, c ∈ w.family id ∧ w'.family c = [c] := by
  intro c hc
  obtain ⟨r, hr, hn, rfl⟩ := h'.parents id hid
  obtain ⟨p', hp', -, -, hmem⟩ := (h'.flow r hr).parent hn
  obtain rfl : p' = p := Option.some.inj (hp'.symm.trans hp)
  obtain ⟨i, hi, rfl, hended⟩ := (hmem c).mp hc
  rw [hreq] at hr
  obtain ⟨p₀, hp₀, -, -, hmem₀⟩ := (h.flow r hr).parent hn
  refine ⟨List.mem_cons_of_mem _ ?_, ?_⟩
  · rw [if_pos (hs.parentRequests hid), hp₀]
    exact (hmem₀ _).mpr ⟨i, hi, rfl, hs.ended _ hended⟩
  · rw [family, if_neg (h'.child_notMem (hreq ▸ hr) hn hi)]

theorem abortRequests_inv (depth : Nat) : ∀ {w : OutputProcessor D E K} {requestIds : List ReqId}
    {internal : Bool} {res : OutputProcessor D E K × List ReqId}, Inv w →
      (∀ id ∈ w.targets requestIds internal, w.Quiet id) →
      abortRequests depth w requestIds internal = .ok res →
      Inv res.1 ∧ Shrinks w res.1 ∧ res.1.requests = w.requests := by
  induction depth with
  | zero =>
    intro w requestIds internal res _ _ hok
    cases hok
  | succ depth ih =>
    intro w requestIds internal res h hquiet hok
    rw [abortRequests, Result.bind_eq_ok] at hok
    obtain ⟨⟨w₁, ids⟩, hresolve, hok⟩ := hok
    obtain ⟨⟨externalReqIds, hw₁⟩, hids⟩ := resolveIds_spec hresolve
    dsimp only at hw₁ hids hok
    subst hw₁
    have hquiet : ∀ id ∈ ids, ∀ x ∈ w.family id, w.Quiet x := by
      intro id hid x hx
      refine hquiet x (List.mem_flatMap.mpr ⟨id, ?_, hx⟩)
      rcases hids id hid with hnil | hid
      · cases hnil
      · exact hid
    have hstart : Inv { w with externalReqIds } ∧ Shrinks w { w with externalReqIds } ∧
        ({ w with externalReqIds } : OutputProcessor D E K).requests = w.requests :=
      ⟨h.rekey (List.Subset.refl _), ⟨fun _ _ h => h, List.Subset.refl _, fun _ h => h⟩, rfl⟩
    refine Result.foldlM_inv_of_ok (I := fun _ s => Inv s.1 ∧ Shrinks w s.1 ∧
      s.1.requests = w.requests) ?_ hstart hok
    rintro done id todo ⟨w₁, aborted⟩ s' hl ⟨hinv, hshr, hreq⟩ hstep
    have hfamily := hquiet id (hl ▸ by simp)
    dsimp only at hinv hshr hreq hstep
    split at hstep
    · -- a request that is served
      rename_i st hst
      rw [Result.bind_eq_ok] at hstep
      obtain ⟨⟨w₂, st'⟩, hsend, hstep⟩ := hstep
      cases hstep
      have hself := (hfamily id List.mem_cons_self).shrinks hshr
      obtain ⟨hinv', hshr'⟩ := abortOne_inv hinv hst hself hsend
      exact ⟨hinv', hshr.trans hshr', (send_requests hsend).trans hreq⟩
    split at hstep
    · rename_i hparent
      split at hstep
      · -- a parent: its children, and then itself
        rename_i p hp
        have hrec : ∃ w₂ children, s' = ({ w₂ with parentRequests := w₂.parentRequests.erase id },
            aborted ++ children) ∧ Inv w₂ ∧ Shrinks w₁ w₂ ∧ w₂.requests = w₁.requests := by
          split at hstep
          · cases hstep
            exact ⟨w₁, [], rfl, hinv, Shrinks.refl w₁, rfl⟩
          · rw [Result.bind_eq_ok] at hstep
            obtain ⟨⟨w₂, children⟩, hchildren, hstep⟩ := hstep
            cases hstep
            refine ⟨w₂, children, rfl, ih hinv (fun x hx => ?_) hchildren⟩
            obtain ⟨c, hc, hx⟩ := List.mem_flatMap.mp hx
            obtain ⟨hmem, hself⟩ := h.family_children hinv hshr hreq hparent hp c hc
            rw [hself, List.mem_singleton] at hx
            subst hx
            exact (hfamily x hmem).shrinks hshr
        obtain ⟨w₂, children, rfl, hinv', hshr', hreq'⟩ := hrec
        refine ⟨hinv'.rekey List.erase_subset, (hshr.trans hshr').trans ?_, hreq'.trans hreq⟩
        exact ⟨fun _ _ h => h, List.erase_subset, fun _ h => h⟩
      · cases hstep
        exact ⟨hinv, hshr, hreq⟩
    · cases hstep
      exact ⟨hinv, hshr, hreq⟩

theorem Flow.taken (h : Flow w r) {o : RequestOutput (LogprobsRef E) K}
    (hout : (w.collectors r.requestId).output = some (.output o))
    (hcollector : w'.collectors r.requestId = { w.collectors r.requestId with output := none })
    (hreceived : w'.received r.requestId = w.received r.requestId ++ [o.seen w.logprobs])
    (hparents : w'.parents = w.parents) (hstates : w'.requestStates = w.requestStates)
    (hended : w'.ended = w.ended) (hlogprobs : w'.logprobs = w.logprobs) : Flow w' r := by
  have hwaiting : (w.collectors r.requestId).waiting = o.outputs := by
    rw [RequestOutputCollector.waiting, hout]
  have hflag : (w.collectors r.requestId).finished = o.finished := by
    rw [RequestOutputCollector.finished, hout]
  have hpieces : w'.pieces r.requestId = w.pieces r.requestId := by
    rw [pieces, pieces, hcollector, hreceived, hlogprobs, hwaiting, List.flatMap_append]
    simp [RequestOutputCollector.waiting, RequestOutput.seen]
  have hdone : w'.Done r ↔ w.Done r := by
    rw [Done, Done, hended]
  refine ⟨?_, ?_, ?_, ?_, ?_, ?_, ?_, ?_⟩
  · rw [hcollector]
    exact ⟨h.collector.aggregate, (fun _ h => by cases h), List.nodup_nil⟩
  · rw [hcollector]
    exact List.forall_mem_nil _
  · rw [hcollector]
    exact List.forall_mem_nil _
  · rw [hstates, hended, hlogprobs, hpieces]
    exact h.live
  · rw [hstates, hended, hlogprobs, hpieces]
    exact h.ended
  · intro hn
    obtain ⟨p, hp, hknows⟩ := h.parent hn
    refine ⟨p, hparents ▸ hp, ?_⟩
    rw [KnowsChildren, hended]
    exact hknows
  · intro hnot
    rw [hdone] at hnot
    obtain ⟨hfin, hold⟩ := h.unfinished hnot
    rw [hflag] at hfin
    rw [hcollector, hreceived]
    refine ⟨rfl, fun o' ho' => ?_⟩
    rcases List.mem_append.mp ho' with ho' | ho'
    · exact hold o' ho'
    · rw [List.mem_singleton.mp ho']
      exact hfin
  · intro hyes
    rw [hdone] at hyes
    rcases h.finished hyes with ⟨-, hfin, hold⟩ | ⟨hnone, -⟩
    · rw [hflag] at hfin
      rw [hcollector, hreceived]
      exact .inr ⟨rfl, w.received r.requestId, o.seen w.logprobs, rfl, hfin, hold⟩
    · rw [hout] at hnone
      cases hnone

theorem get_inv (h : Inv w) (hr : r ∈ w.requests) (hok : w.get r.requestId = .ok w') : Inv w' := by
  unfold get at hok
  rw [Result.bind_eq_ok] at hok
  obtain ⟨⟨output, c⟩, hget, hok⟩ := hok
  have hflow := h.flow r hr
  unfold RequestOutputCollector.getNowait at hget
  split at hget
  · cases hget
    cases hok
    have hsame : Function.update w.collectors r.requestId (w.collectors r.requestId) =
        w.collectors := Function.update_eq_self _ _
    refine ⟨fun r' hr' => ?_, h.disjoint, h.owned, h.parents, h.fresh⟩
    exact (h.flow r' hr').congr ⟨congrFun hsame _, rfl, fun _ => rfl, fun _ _ => rfl,
      fun _ _ => rfl, fun _ _ => rfl⟩
  · rename_i o hout
    cases hget
    cases hok
    refine ⟨fun r' hr' => ?_, h.disjoint, h.owned, h.parents, fun id hid => ?_⟩
    · rcases h.disjoint r hr r' hr' with rfl | hids
      · exact hflow.taken hout (Function.update_self _ _ _) (Function.update_self _ _ _) rfl rfl rfl
          rfl
      · have hne : r'.requestId ≠ r.requestId :=
          fun heq => hids List.mem_cons_self (heq ▸ List.mem_cons_self)
        exact (h.flow r' hr').congr ⟨Function.update_of_ne hne _ _, Function.update_of_ne hne _ _,
          fun _ => rfl, fun _ _ => rfl, fun _ _ => rfl, fun _ _ => rfl⟩
    · obtain ⟨hreceived, hended⟩ := h.fresh id hid
      have hne : id ≠ r.requestId := fun heq => hid r hr (heq ▸ List.mem_cons_self)
      exact ⟨(Function.update_of_ne hne _ _).trans hreceived, hended⟩
  · cases hget

end Ops

section Add

variable {w w' : OutputProcessor D E K} {r : NewRequest D}

theorem child_cut (r : NewRequest D) (streamInterval i : Nat) :
    (r.child streamInterval i).Cut ([] : List E) .empty := by
  have htokens : r.detokenizer.outputTokenIds = [] := by
    unfold NewRequest.detokenizer IncrementalDetokenizer.outputTokenIds
    cases r.detokenization <;> simp
  have hnum : r.detokenizer.numOutputTokens = 0 := by
    rw [← IncrementalDetokenizer.length_outputTokenIds, htokens]
    rfl
  refine ⟨⟨?_, ?_⟩, ?_, ?_, ?_, ?_, ?_, rfl⟩
  · show r.detokenizer.promptLen ≤ r.detokenizer.tokenIds.length
    unfold NewRequest.detokenizer
    cases r.detokenization <;> simp
  · show ∀ b ∈ r.detokenizer.base, _
    unfold NewRequest.detokenizer
    cases r.detokenization <;> simp
  · show [] = r.detokenizer.sentText
    unfold NewRequest.detokenizer IncrementalDetokenizer.sentText
    cases r.detokenization <;> simp
  · exact Nat.zero_le _
  · show [] = if streamInterval > 1 then r.detokenizer.outputTokenIds.take 0
      else r.detokenizer.outputTokenIds
    rw [htokens, List.take_nil, ite_self]
  · exact fun _ => hnum.symm
  · show [] = if r.numLogprobs = none then [] else List.take 0 []
    rw [List.take_nil, ite_self]

structure Added (w w' : OutputProcessor D E K) (r : NewRequest D) (k : Nat) : Prop where
  streamInterval : w'.streamInterval = w.streamInterval
  collectors : w'.collectors = w.collectors
  received : w'.received = w.received
  ended : w'.ended = w.ended
  requests : w'.requests = w.requests
  children : ∀ j < k, w'.requestStates.get? (r.childId j) = some (r.child w.streamInterval j) ∧
    w'.logprobs (r.childId j) = []
  others : ∀ id, (∀ j < k, id ≠ r.childId j) →
    w'.requestStates.get? id = w.requestStates.get? id ∧ w'.logprobs id = w.logprobs id
  parents : ∀ id, (r.n ≠ 1 → id ≠ r.requestId) → w'.parents id = w.parents id
  parent : r.n ≠ 1 → ∃ p, w'.parents r.requestId = some p ∧ p.requestId = r.requestId ∧
    p.childRequests.Nodup ∧ ∀ id, id ∈ p.childRequests ↔ ∃ j < k, id = r.childId j
  parentRequests : ∀ id ∈ w'.parentRequests,
    id ∈ w.parentRequests ∨ r.n ≠ 1 ∧ id = r.requestId

theorem addChild_added {k : Nat} (h : Added w w' r k) (hk : k < r.n) :
    Added w (addChild r w' k) r (k + 1) := by
  have hne : ∀ j < k, r.childId k ≠ r.childId j := fun j hj heq =>
    Nat.ne_of_gt hj (NewRequest.childId_inj hk (Nat.lt_trans hj hk) heq)
  refine ⟨h.streamInterval, h.collectors, h.received, h.ended, h.requests, ?_, ?_, ?_, ?_, ?_⟩
  · intro j hj
    show (w'.requestStates.set (r.childId k) (r.child w'.streamInterval k)).get? (r.childId j) = _ ∧
      Function.update w'.logprobs (r.childId k) [] (r.childId j) = []
    by_cases hjk : j = k
    · subst hjk
      rw [Dict.get?_set, if_pos rfl, Function.update_self, h.streamInterval]
      exact ⟨rfl, rfl⟩
    · have hlt : j < k := by omega
      rw [Dict.get?_set, if_neg (hne j hlt), Function.update_of_ne (hne j hlt).symm]
      exact h.children j hlt
  · intro id hid
    show (w'.requestStates.set (r.childId k) (r.child w'.streamInterval k)).get? id = _ ∧
      Function.update w'.logprobs (r.childId k) [] id = _
    have hidk := hid k (Nat.lt_succ_self k)
    rw [Dict.get?_set, if_neg (Ne.symm hidk), Function.update_of_ne hidk]
    exact h.others id fun j hj => hid j (Nat.lt_succ_of_lt hj)
  · intro id hid
    have hpar : (r.child w'.streamInterval k).parentReq ≠ some id := by
      show (if r.n = 1 then none else some r.requestId) ≠ some id
      split
      · nofun
      · rename_i hn
        exact fun heq => hid hn (Option.some.inj heq).symm
    show ((w'.parents id).map fun p => if (r.child w'.streamInterval k).parentReq = some id then _
      else p) = _
    simp only [hpar, if_false, Option.map_id']
    exact h.parents id hid
  · intro hn
    obtain ⟨p, hp, hid, hnodup, hmem⟩ := h.parent hn
    refine ⟨{ p with childRequests := p.childRequests.insert (r.childId k) }, ?_, hid,
      hnodup.insert, fun id => ?_⟩
    · show ((w'.parents r.requestId).map fun p =>
        if (r.child w'.streamInterval k).parentReq = some r.requestId then _ else p) = _
      have hpar : (r.child w'.streamInterval k).parentReq = some r.requestId := if_neg hn
      simp only [hp, hpar, if_true, Option.map_some]
      rfl
    · rw [List.mem_insert_iff, hmem]
      constructor
      · rintro (rfl | ⟨j, hj, rfl⟩)
        · exact ⟨k, Nat.lt_succ_self k, rfl⟩
        · exact ⟨j, Nat.lt_succ_of_lt hj, rfl⟩
      · rintro ⟨j, hj, rfl⟩
        rcases Nat.lt_succ_iff_lt_or_eq.mp hj with hj | rfl
        · exact .inr ⟨j, hj, rfl⟩
        · exact .inl rfl
  · intro id hid
    by_cases hn : r.n = 1
    · have hpar : (r.child w'.streamInterval k).parentReq = none := if_pos hn
      simp only [addChild, hpar] at hid
      exact h.parentRequests id hid
    · have hpar : (r.child w'.streamInterval k).parentReq = some r.requestId := if_neg hn
      simp only [addChild, hpar, List.mem_insert_iff] at hid
      exact hid.elim (fun heq => .inr ⟨hn, heq⟩) (h.parentRequests id)

theorem addChildren_added (w : OutputProcessor D E K) {r : NewRequest D} (k : Nat) (hk : k ≤ r.n)
    (hparent : r.n ≠ 1 → w.parents r.requestId = some
      { requestId := r.requestId, externalReqId := r.externalReqId, childRequests := [] }) :
    Added w ((List.range k).foldl (addChild r) w) r k := by
  induction k with
  | zero =>
    refine ⟨rfl, rfl, rfl, rfl, rfl, nofun, fun _ _ => ⟨rfl, rfl⟩, fun _ _ => rfl, fun hn => ?_,
      fun id hid => .inl hid⟩
    exact ⟨_, hparent hn, rfl, List.nodup_nil, by simp⟩
  | succ k ih =>
    rw [List.range_succ, List.foldl_append]
    exact addChild_added (ih (Nat.le_of_succ_le hk)) hk

theorem addRequest_added (w : OutputProcessor D E K) (r : NewRequest D) :
    ∃ w₀ : OutputProcessor D E K, Added w₀ (w.addRequest r) r r.n ∧
      w₀.streamInterval = w.streamInterval ∧ w₀.requestStates = w.requestStates ∧
      w₀.parentRequests = w.parentRequests ∧ w₀.logprobs = w.logprobs ∧
      w₀.received = w.received ∧ w₀.ended = w.ended ∧ w₀.requests = w.requests ++ [r] ∧
      w₀.collectors r.requestId = { aggregate := true, output := none } ∧
      (∀ id, id ≠ r.requestId → w₀.collectors id = w.collectors id ∧ w₀.parents id = w.parents id) := by
  refine ⟨_, addChildren_added _ r.n (Nat.le_refl _) fun hn => ?_, rfl, rfl, rfl, rfl, rfl, rfl,
    rfl, Function.update_self _ _ _, fun id hne => ⟨Function.update_of_ne hne _ _, ?_⟩⟩
  · show (if r.n = 1 then w.parents else Function.update w.parents r.requestId _) r.requestId = _
    rw [if_neg hn, Function.update_self]
  · show (if r.n = 1 then w.parents else Function.update w.parents r.requestId _) id = _
    split
    · rfl
    · exact Function.update_of_ne hne _ _

theorem addRequest_inv (h : Inv w) (hn : 1 ≤ r.n)
    (hnew : ∀ r' ∈ w.requests, ∀ id ∈ r.ids, id ∉ r'.ids) : Inv (w.addRequest r) := by
  obtain ⟨w₀, ha, hinterval, hstates, hparents, hlogprobs, hreceived, hended, hrequests, hcollector,
    hothers⟩ := addRequest_added w r
  have hreq : (w.addRequest r).requests = w.requests ++ [r] := ha.requests.trans hrequests
  have hfresh : ∀ id ∈ r.ids, w.received id = [] ∧ w.ended id = none :=
    fun id hid => h.fresh id fun r' hr' => hnew r' hr' id hid
  have hold : ∀ r' ∈ w.requests, ∀ id ∈ r'.ids, id ≠ r.requestId ∧ ∀ j < r.n, id ≠ r.childId j := by
    intro r' hr' id hid
    refine ⟨fun heq => ?_, fun j hj heq => ?_⟩
    · exact hnew r' hr' _ List.mem_cons_self (heq ▸ hid)
    · exact hnew r' hr' _ (NewRequest.childId_mem hj) (heq ▸ hid)
  have hflow : (w.addRequest r).Flow r := by
    have hpieces : (w.addRequest r).pieces r.requestId = [] := by
      rw [pieces, ha.received, hreceived, (hfresh _ List.mem_cons_self).1, ha.collectors, hcollector]
      rfl
    have hnone : ∀ i < r.n, (w.addRequest r).ended (r.childId i) = none := by
      intro i hi
      rw [ha.ended, hended, (hfresh _ (NewRequest.childId_mem hi)).2]
    have hnot : ¬ (w.addRequest r).Done r := fun hdone => hdone 0 hn (hnone 0 hn)
    refine ⟨?_, ?_, ?_, ?_, ?_, ?_, fun _ => ?_, fun hdone => absurd hdone hnot⟩
    · rw [ha.collectors, hcollector]
      exact ⟨rfl, (fun _ h => by cases h), List.nodup_nil⟩
    · rw [ha.collectors, hcollector]
      exact List.forall_mem_nil _
    · rw [ha.collectors, hcollector]
      exact List.forall_mem_nil _
    · intro i hi st hst
      obtain ⟨hget, hlog⟩ := ha.children i hi
      rw [hget] at hst
      cases hst
      refine ⟨hnone i hi, ⟨rfl, rfl, rfl, rfl⟩, ?_⟩
      rw [hlog, hpieces]
      exact child_cut r w₀.streamInterval i
    · intro i hi hmissing
      rw [(ha.children i hi).1] at hmissing
      cases hmissing
    · intro hn
      obtain ⟨p, hp, hid, hnodup, hmem⟩ := ha.parent hn
      refine ⟨p, hp, hid, hnodup, fun id => (hmem id).trans ?_⟩
      refine exists_congr fun i => and_congr_right fun hi => ?_
      exact ⟨fun heq => ⟨heq, heq ▸ hnone i hi⟩, fun h => h.1⟩
    · rw [ha.collectors, hcollector, ha.received, hreceived, (hfresh _ List.mem_cons_self).1]
      exact ⟨rfl, List.forall_mem_nil _⟩
  refine ⟨?_, ?_, ?_, ?_, ?_⟩
  · rw [hreq]
    intro r' hr'
    rcases List.mem_append.mp hr' with hr' | hr'
    · have hq := (hold r' hr' _ List.mem_cons_self).1
      have hchild : ∀ i < r'.n, ∀ j < r.n, r'.childId i ≠ r.childId j :=
        fun i hi => (hold r' hr' _ (NewRequest.childId_mem hi)).2
      refine (h.flow r' hr').congr ⟨?_, ?_, fun _ => ?_, fun i hi => ?_, fun i _ => ?_, fun i hi => ?_⟩
      · rw [ha.collectors, (hothers _ hq).1]
      · rw [ha.received, hreceived]
      · rw [ha.parents _ fun _ => hq, (hothers _ hq).2]
      · rw [(ha.others _ (hchild i hi)).1, hstates]
      · rw [ha.ended, hended]
      · rw [(ha.others _ (hchild i hi)).2, hlogprobs]
    · rw [List.mem_singleton.mp hr']
      exact hflow
  · rw [hreq]
    intro r₁ h₁ r₂ h₂
    rcases List.mem_append.mp h₁ with h₁ | h₁
    · rcases List.mem_append.mp h₂ with h₂ | h₂
      · exact h.disjoint r₁ h₁ r₂ h₂
      · rw [List.mem_singleton.mp h₂]
        exact .inr fun id hid hid' => hnew r₁ h₁ id hid' hid
    · rw [List.mem_singleton.mp h₁]
      rcases List.mem_append.mp h₂ with h₂ | h₂
      · exact .inr fun id hid hid' => hnew r₂ h₂ id hid hid'
      · exact .inl (List.mem_singleton.mp h₂).symm
  · rw [hreq]
    intro id st hst
    by_cases hid : ∃ j < r.n, id = r.childId j
    · obtain ⟨j, hj, rfl⟩ := hid
      exact ⟨r, by simp, j, hj, rfl⟩
    · have hid : ∀ j < r.n, id ≠ r.childId j := fun j hj heq => hid ⟨j, hj, heq⟩
      rw [(ha.others id hid).1, hstates] at hst
      obtain ⟨r', hr', rest⟩ := h.owned id st hst
      exact ⟨r', List.mem_append_left _ hr', rest⟩
  · rw [hreq]
    intro id hid
    rcases ha.parentRequests id hid with hid | ⟨hn, rfl⟩
    · rw [hparents] at hid
      obtain ⟨r', hr', rest⟩ := h.parents id hid
      exact ⟨r', List.mem_append_left _ hr', rest⟩
    · exact ⟨r, by simp, hn, rfl⟩
  · rw [hreq, ha.received, hreceived, ha.ended, hended]
    intro id hid
    exact h.fresh id fun r' hr' => hid r' (List.mem_append_left _ hr')

end Add

theorem init_inv (streamInterval : Nat) : Inv (init streamInterval : OutputProcessor D E K) where
  flow := nofun
  disjoint := nofun
  owned := fun id st hst => by
    rw [init, Dict.get?_empty] at hst
    cases hst
  parents := nofun
  fresh := fun _ _ => ⟨rfl, rfl⟩

variable {w : OutputProcessor D E K} {r : NewRequest D}

theorem step_inv {t : Tokenizer D R E} {w' : OutputProcessor D E K} {op : Op D R K} (h : Inv w)
    (hallowed : w.Allowed t op) (hclean : w.Clean t op) (hok : w.step t op = .ok w') : Inv w' := by
  cases op with
  | addRequest r =>
    cases hok
    exact addRequest_inv h hallowed.1 hallowed.2
  | processOutputs outputs =>
    rw [step, Result.map_eq_ok] at hok
    obtain ⟨res, hok, rfl⟩ := hok
    exact processOutputs_inv h hallowed hclean hok
  | abortRequests requestIds internal =>
    rw [step, Result.map_eq_ok] at hok
    obtain ⟨res, hok, rfl⟩ := hok
    exact (abortRequests_inv recursionLimit h hclean hok).1
  | get queue =>
    obtain ⟨r, hr, rfl⟩ := hallowed
    exact get_inv h hr hok

theorem length_finishReasons (l : List (CompletionOutput (List E))) :
    (l.flatMap (·.finishReason.toList)).length = l.countP (·.finishReason.isSome) := by
  induction l with
  | nil => rfl
  | cons p l ih =>
    rw [List.flatMap_cons, List.length_append, ih, List.countP_cons]
    cases p.finishReason with
    | none => simp
    | some reason => simp [Nat.add_comm]

theorem Flow.delivered (h : Flow w r) : w.Delivered r := by
  intro hdone hnone
  rcases h.finished hdone with ⟨hsome, -⟩ | ⟨-, hlast⟩
  · exact absurd hnone hsome
  refine ⟨fun i hi st hst => ?_, hlast⟩
  have hmissing : w.requestStates.get? (r.childId i) = none := by
    cases hget : w.requestStates.get? (r.childId i) with
    | none => rfl
    | some st' =>
      rw [(h.live i hi st' hget).1] at hst
      cases hst
  obtain ⟨st', hst', hchild, hwhole⟩ := h.ended i hi hmissing
  obtain rfl : st' = st := Option.some.inj (hst'.symm.trans hst)
  have hpieces : w.pieces r.requestId = (w.received r.requestId).flatMap (·.outputs) := by
    rw [pieces, RequestOutputCollector.waiting, hnone, List.map_nil, List.append_nil]
  rw [hpieces] at hwhole
  refine ⟨hwhole.text, hwhole.tokenIds, fun hsome => ⟨?_, ?_⟩, ?_⟩
  · refine hwhole.logprobs.trans ?_
    rw [if_neg hsome, hchild.requestId]
  · rw [hchild.requestId, IncrementalDetokenizer.length_outputTokenIds]
    exact hwhole.rows hsome
  · exact (length_finishReasons _).symm.trans hwhole.finishReasons

/-- In a run whose steps are clean every request is delivered as it was produced. -/
theorem delivered_of_clean (t : Tokenizer D R E) (streamInterval : Nat) {ops : List (Op D R K)}
    (hallowed : Guarded (step t) (Allowed t) (init streamInterval : OutputProcessor D E K) ops)
    (hclean : Guarded (step t) (Clean t) (init streamInterval : OutputProcessor D E K) ops) :
    Throughout (step t) (fun w => ∀ r ∈ w.requests, w.Delivered r)
      (init streamInterval : OutputProcessor D E K) ops :=
  throughout_of_inv (fun _ _ _ h hG hok => step_inv h hG.1 hG.2 hok)
    (fun _ h r hr => (h.flow r hr).delivered) (init_inv streamInterval) (hallowed.and hclean)

section Example

def letters : Tokenizer Unit Nat Nat where
  decodeNext := fun d _ _ => (['a'], d)
  logprobsEntry := fun _ row => row

def letterRequest (n : Nat) : NewRequest Unit where
  requestId := "r"
  externalReqId := "x"
  n
  numLogprobs := some 1
  promptTokenIds := [1]
  detokenization := .fast { stop := [['b', 'c']], minTokens := 0, includeStopStrInOutput := false
                            nonempty := by simp } ()

def letterOutput (requestId : ReqId) (newTokenIds : List Int) (rows : List Nat)
    (finishReason : Option FinishReason) : EngineCoreOutput Nat Unit where
  requestId
  newTokenIds
  newLogprobs := some rows
  finishReason
  stopReason := none
  kvTransferParams := none
  numCachedTokens := 0

instance (w : OutputProcessor D E K) (o : EngineCoreOutput R K) : Decidable (w.RowsComplete o) :=
  inferInstanceAs (Decidable (∀ st ∈ w.requestStates.get? o.requestId, _))

instance (w : OutputProcessor D E K) (o : EngineCoreOutput R K) : Decidable (w.OutputClean o) :=
  inferInstanceAs (Decidable (∀ st ∈ w.requestStates.get? o.requestId, _))

instance (w : OutputProcessor D E K) (id : ReqId) : Decidable (w.Quiet id) :=
  inferInstanceAs (Decidable (∀ st ∈ w.requestStates.get? id, _))

instance (t : Tokenizer D R E) (w : OutputProcessor D E K) :
    ∀ op : Op D R K, Decidable (w.Allowed t op)
  | .addRequest r => inferInstanceAs (Decidable (1 ≤ r.n ∧ _))
  | .processOutputs outputs =>
    inferInstanceAs (Decidable (Guarded (outputStep t) RowsComplete w outputs))
  | .abortRequests _ _ => isTrue trivial
  | .get queue => inferInstanceAs (Decidable (∃ r ∈ w.requests, r.requestId = queue))

instance (t : Tokenizer D R E) (w : OutputProcessor D E K) :
    ∀ op : Op D R K, Decidable (w.Clean t op)
  | .addRequest _ => isTrue trivial
  | .processOutputs outputs =>
    inferInstanceAs (Decidable (Guarded (outputStep t) OutputClean w outputs))
  | .abortRequests requestIds internal =>
    inferInstanceAs (Decidable (∀ id ∈ w.targets requestIds internal, w.Quiet id))
  | .get _ => isTrue trivial

def twoChildren : List (Op Unit Nat Unit) :=
  [.addRequest (letterRequest 2),
    .processOutputs [letterOutput "0_r" [5] [50] none, letterOutput "1_r" [6] [60] none],
    .get "r",
    .processOutputs [letterOutput "0_r" [7] [70] none, letterOutput "1_r" [8] [80] (some .length)],
    .abortRequests ["r"] true,
    .get "r"]

theorem delivered_of_clean_twoChildren :
    Throughout (step letters) (fun w => ∀ r ∈ w.requests, w.Delivered r) (init 4) twoChildren :=
  delivered_of_clean letters 4 (by decide +kernel) (by decide +kernel)

def abortedAfterSending : List (Op Unit Nat Unit) :=
  [.addRequest (letterRequest 1), .processOutputs [letterOutput "r" [5] [50] none], .get "r",
    .abortRequests ["x"] false, .get "r"]

def repeatsLogprobs (w : OutputProcessor Unit Nat Unit) : Bool :=
  w.requests.any fun r => decide (r.n = 1) && (w.collectors r.requestId).output.isNone &&
    match w.ended (r.childId 0) with
    | some st => decide (st.numLogprobs ≠ none ∧
        (ofIndex ((w.received r.requestId).flatMap (·.outputs)) 0).flatMap (·.logprobs.getD []) ≠
          w.logprobs st.requestId)
    | none => false

theorem not_delivered_of_repeatsLogprobs {w : OutputProcessor Unit Nat Unit}
    (h : repeatsLogprobs w = true) : ¬ ∀ r ∈ w.requests, w.Delivered r := by
  intro hdelivered
  obtain ⟨r, hr, h⟩ := List.any_eq_true.mp h
  rw [Bool.and_eq_true, Bool.and_eq_true, decide_eq_true_eq, Option.isNone_iff_eq_none] at h
  obtain ⟨⟨hn, hnone⟩, h⟩ := h
  cases hended : w.ended (r.childId 0) with
  | none => simp [hended] at h
  | some st =>
    rw [hended] at h
    obtain ⟨hsome, hne⟩ := of_decide_eq_true h
    have hdone : w.Done r := by
      intro i hi
      obtain rfl : i = 0 := by omega
      rw [hended]
      nofun
    have hall := (hdelivered r hr hdone hnone).1 0 (by omega) st hended
    exact hne (hall.logprobs hsome).1

theorem not_delivered_abort :
    Guarded (step letters) (Allowed letters) (init 1) abortedAfterSending ∧
      ¬ Throughout (step letters) (fun w => ∀ r ∈ w.requests, w.Delivered r) (init 1)
        abortedAfterSending := by
  refine ⟨by decide +kernel, fun h => ?_⟩
  obtain ⟨w, hrun, hw⟩ := Result.exists_of_holds
    (x := runSteps (step letters) (init 1) abortedAfterSending) (p := repeatsLogprobs)
    (by decide +kernel)
  exact not_delivered_of_repeatsLogprobs hw (h.last hrun)

end Example

end OutputProcessor

end Vllm.Frontend
