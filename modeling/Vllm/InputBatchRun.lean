import Vllm.InputBatchCondense
import Vllm.Lib.Run

namespace Vllm.Worker

open InputBatch

structure RowUpdate where
  reqId : ReqId
  numComputedTokens : Nat
  newBlockIds : List (List Nat)
  specTokenIds : List Token
  deriving DecidableEq, Repr

/-- What one call of `_update_states` does to the batch, in this order. New requests come with
their drafts. -/
structure BatchStep (F G E : Type) where
  removed : List ReqId
  updates : List RowUpdate
  added : List (CachedRequestState F G E × List Token)
  swaps : List (Nat × Nat)

structure ModelRunner (F F32 G E : Type) where
  batch : InputBatch F F32 G E
  requests : Dict ReqId (CachedRequestState F G E)

variable {F F32 G E V : Type}

namespace ModelRunner

def withBatch (st : ModelRunner F F32 G E) (b : InputBatch F F32 G E) : ModelRunner F F32 G E :=
  { st with batch := b }

def removeRequest (c : InputBatchConfig F F32) (st : ModelRunner F F32 G E) (reqId : ReqId) :
    Result (ModelRunner F F32 G E) := do
  let (_, b) ← st.batch.removeRequest c reqId
  return st.withBatch b

/-- `block_ids.extend(new_ids)` for every pair of `zip(req_state.block_ids, new_block_ids)`. -/
def extendBlockIds : List (List Nat) → List (List Nat) → List (List Nat)
  | ids :: rest, new :: news => (ids ++ new) :: extendBlockIds rest news
  | rest, [] => rest
  | [], _ => []

def updateRequest (c : InputBatchConfig F F32) (st : ModelRunner F F32 G E) (u : RowUpdate) :
    Result (ModelRunner F F32 G E) :=
  match st.requests.get? u.reqId with
  | none => .error .keyError
  | some r => do
    let r := { r with
      numComputedTokens := u.numComputedTokens
      blockIds := extendBlockIds r.blockIds u.newBlockIds }
    let i ← st.batch.getIndex u.reqId
    let ts ← st.batch.blockTable.appendRow u.newBlockIds i
    let b ← (st.batch.withRunning i u.numComputedTokens ts).updateReqSpecTokenIds c u.reqId
      u.specTokenIds
    return { batch := b, requests := st.requests.set u.reqId r }

section

variable [Zero F] [One F] [LT F] [DecidableLT F] [DecidableEq F]

def addRequest (c : InputBatchConfig F F32) (st : ModelRunner F F32 G E)
    (a : CachedRequestState F G E × List Token) : Result (ModelRunner F F32 G E) := do
  let (_, b) ← st.batch.addRequest c a.1
  let b ← b.updateReqSpecTokenIds c a.1.reqId a.2
  return { batch := b, requests := st.requests.set a.1.reqId a.1 }

/-- The part of `_update_states` up to the call of `condense`. -/
def condenseStates (c : InputBatchConfig F F32) (st : ModelRunner F F32 G E)
    (s : BatchStep F G E) : Result (ModelRunner F F32 G E) := do
  let st ← s.removed.foldlM (removeRequest c) st
  let st ← s.updates.foldlM (updateRequest c) st
  let st ← s.added.foldlM (addRequest c) st
  let b ← st.batch.condense c
  return st.withBatch b

def updateStates (c : InputBatchConfig F F32) (st : ModelRunner F F32 G E)
    (s : BatchStep F G E) : Result (Option (BatchUpdate F) × ModelRunner F F32 G E) := do
  let st ← st.condenseStates c s
  let b ← s.swaps.foldlM (fun b p => b.swapStates c p.1 p.2) st.batch
  let (update, b) := b.refreshMetadata c
  return (update, st.withBatch b)

end

end ModelRunner

open MultiGroupBlockTable ModelRunner

/-- A running request is in the batch, and its new blocks and drafts fit. -/
structure RowUpdate.Allowed (c : InputBatchConfig F F32) (st : ModelRunner F F32 G E)
    (u : RowUpdate) : Prop where
  live : u.reqId ∈ st.batch.reqIdToIndex.keys
  groups : ∀ r, st.requests.get? u.reqId = some r → u.newBlockIds.length = r.blockIds.length
  fits : ∀ r, st.requests.get? u.reqId = some r →
    Fits st.batch.blockTable (extendBlockIds r.blockIds u.newBlockIds)
  drafts : ∀ r, st.requests.get? u.reqId = some r →
    r.numTokens + u.specTokenIds.length ≤ c.maxModelLen

/-- A request that enters has sampling parameters, and its tokens, drafts and blocks fit. -/
structure CachedRequestState.Allowed (c : InputBatchConfig F F32) (st : ModelRunner F F32 G E)
    (r : CachedRequestState F G E) (spec : List Token) : Prop where
  sampling : r.samplingParams ≠ none
  tokens : r.numTokens + spec.length ≤ c.maxModelLen
  fits : Fits st.batch.blockTable r.blockIds

def BatchStep.size (st : ModelRunner F F32 G E) (s : BatchStep F G E) : Nat :=
  (st.batch.reqIdToIndex.keys.filter (· ∉ s.removed)).length + s.added.length

/-- What the scheduler promises of a step: only requests in the batch are continued, only others
enter, each at most once, and the batch does not outgrow its arrays. -/
structure BatchStep.Allowed (c : InputBatchConfig F F32) (st : ModelRunner F F32 G E)
    (s : BatchStep F G E) : Prop where
  updates : ∀ u ∈ s.updates, u.reqId ∉ s.removed ∧ u.Allowed c st
  updatesOnce : (s.updates.map RowUpdate.reqId).Nodup
  added : ∀ a ∈ s.added, a.1.Allowed c st a.2 ∧
    (a.1.reqId ∈ st.batch.reqIdToIndex.keys → a.1.reqId ∈ s.removed)
  addedOnce : (s.added.map fun a => a.1.reqId).Nodup
  capacity : s.size st ≤ c.maxNumReqs
  swaps : ∀ p ∈ s.swaps, p.1 < s.size st ∧ p.2 < s.size st

namespace ModelRunner

structure Working [Zero F] (c : InputBatchConfig F F32) (w : Follower F V)
    (A : SamplingParams F → Prop) (st : ModelRunner F F32 G E) : Prop where
  core : Core c st.requests st.batch
  holes : Holes st.batch
  logged : w.Logged st.requests st.batch
  records : st.batch.batchUpdateBuilder.Records A
  moved : st.batch.batchUpdateBuilder.moved = []
  room : st.batch.reqIds.length ≤ c.maxNumReqs

variable {c : InputBatchConfig F F32} {w : Follower F V} {st : ModelRunner F F32 G E}
variable {A : SamplingParams F → Prop}

theorem removeRequest_working [Zero F] (hc : c.isPoolingModel = false) (h : Working c w A st)
    (hs : st.batch.batchUpdateBuilder.isRemovedSorted = false) (id : ReqId) :
    ∃ st', removeRequest c st id = .ok st' ∧ Working c w A st' ∧
      st'.batch.batchUpdateBuilder.isRemovedSorted = false ∧
      (∀ x, st'.batch.reqIdToIndex.get? x =
        if id = x then none else st.batch.reqIdToIndex.get? x) ∧
      st'.requests = st.requests ∧ st'.batch.blockTable = st.batch.blockTable := by
  cases hi : st.batch.reqIdToIndex.get? id with
  | none =>
    refine ⟨st, ?_, h, hs, fun x => ?_, rfl, rfl⟩
    · unfold removeRequest InputBatch.removeRequest
      rw [hi]
      rfl
    · split
      · rename_i hx
        exact hx ▸ hi
      · rfl
  | some i =>
    have hslot := (h.core.index id i).mp hi
    have hlora : st.batch.requestLoraMapping i ≠ 0 →
        st.batch.loraUsers (st.batch.requestLoraMapping i) ≠ ∅ := by
      intro hl hempty
      have hmem := (h.core.users (st.batch.requestLoraMapping i) id).mpr ⟨hl, i, hslot, rfl⟩
      rw [hempty] at hmem
      cases hmem
    obtain ⟨b', hok, hr⟩ := removeRequest_spec hc hi hs hlora
    refine ⟨st.withBatch b', ?_, ⟨h.core.removed hslot hr, h.holes.removed hslot hi hs hr,
      h.logged.removed hslot h.moved hr, ?_, ?_, ?_⟩, ?_, fun x => ?_, rfl, hr.tables⟩
    · unfold removeRequest
      rw [hok]
      rfl
    · show b'.batchUpdateBuilder.Records A
      rw [hr.builder]
      exact ⟨h.records.added, h.records.moved⟩
    · show b'.batchUpdateBuilder.moved = []
      rw [hr.builder]
      exact h.moved
    · show b'.reqIds.length ≤ _
      rw [hr.reqIds, List.length_set]
      exact h.room
    · show b'.batchUpdateBuilder.isRemovedSorted = false
      rw [hr.builder]
      exact hs
    · show b'.reqIdToIndex.get? x = _
      rw [hr.index, Dict.get?_erase]

theorem removeRequests_working [Zero F] (hc : c.isPoolingModel = false) (h : Working c w A st)
    (hs : st.batch.batchUpdateBuilder.isRemovedSorted = false) (ids : List ReqId) :
    ∃ st', ids.foldlM (removeRequest c) st = .ok st' ∧ Working c w A st' ∧
      (∀ x, st'.batch.reqIdToIndex.get? x =
        if x ∈ ids then none else st.batch.reqIdToIndex.get? x) ∧
      st'.requests = st.requests ∧ st'.batch.blockTable = st.batch.blockTable := by
  obtain ⟨st', hok, hw, -, hindex, hrest⟩ := Result.foldlM_ok (f := removeRequest c)
    (P := fun (s : ModelRunner F F32 G E) (l : List ReqId) => Working c w A s ∧
      s.batch.batchUpdateBuilder.isRemovedSorted = false ∧
      (∀ x, (if x ∈ l then none else s.batch.reqIdToIndex.get? x) =
        if x ∈ ids then none else st.batch.reqIdToIndex.get? x) ∧
      s.requests = st.requests ∧ s.batch.blockTable = st.batch.blockTable)
    (fun s id l ⟨hw, hs, hindex, hreq, htab⟩ => by
      obtain ⟨s', hok, hw, hs, hindex', hreq', htab'⟩ := removeRequest_working hc hw hs id
      refine ⟨s', hok, hw, hs, fun x => ?_, hreq'.trans hreq, htab'.trans htab⟩
      rw [← hindex, hindex']
      by_cases hx : x = id
      · simp [hx]
      · simp [hx, Ne.symm hx])
    ⟨h, hs, fun _ => rfl, rfl, rfl⟩
  exact ⟨st', hok, hw, fun x => by simpa using hindex x, hrest⟩

theorem extendBlockIds_eq (old new : List (List Nat)) (h : new.length = old.length) :
    extendBlockIds old new = List.zipWith (· ++ ·) old new := by
  induction old generalizing new with
  | nil => rw [List.length_eq_zero_iff.mp h]; rfl
  | cons ids rest ih =>
    cases new with
    | nil => cases h
    | cons x news =>
      rw [extendBlockIds, ih news (Nat.succ_injective h), List.zipWith_cons_cons]

theorem updateRequest_working [Zero F] (h : Working c w A st) {u : RowUpdate}
    (hu : u.Allowed c st) :
    ∃ st', updateRequest c st u = .ok st' ∧ Working c w A st' ∧
      st'.batch.reqIdToIndex = st.batch.reqIdToIndex ∧
      (∀ x ≠ u.reqId, st'.requests.get? x = st.requests.get? x) ∧
      ∀ blockIds, Fits st'.batch.blockTable blockIds ↔ Fits st.batch.blockTable blockIds := by
  obtain ⟨i, hi⟩ := Dict.mem_keys.mp hu.live
  have hslot := (h.core.index _ _).mp hi
  obtain ⟨r, hr, hrow⟩ := h.core.rows i u.reqId hslot
  have heq := extendBlockIds_eq r.blockIds u.newBlockIds (hu.groups r hr)
  have hfits := hu.fits r hr
  rw [heq] at hfits
  obtain ⟨ts, hts, hrows, hframe⟩ := appendRow_spec hrow.tables (hu.groups r hr) hfits
  rw [← heq] at hrows
  generalize hr' : { r with
    numComputedTokens := u.numComputedTokens
    blockIds := extendBlockIds r.blockIds u.newBlockIds } = r'
  have hrun : st.batch.Updated c i r r' (st.batch.withRunning i u.numComputedTokens ts) := by
    rw [← hr']
    exact withRunning_spec hrows hframe
  have hnum : (st.batch.withRunning i u.numComputedTokens ts).numTokensNoSpec i = r'.numTokens := by
    rw [← hr']
    exact hrow.numTokens
  have hdrafts : r'.numTokens + u.specTokenIds.length ≤ c.maxModelLen := by
    rw [← hr']
    exact hu.drafts r hr
  obtain ⟨b', hok, hspec⟩ := updateReqSpecTokenIds_spec (c := c)
    (b := st.batch.withRunning i u.numComputedTokens ts) hi hnum hdrafts
  have hupd := hrun.trans hspec
  refine ⟨⟨b', st.requests.set u.reqId r'⟩, ?_, ⟨h.core.updated hslot hr hupd,
    h.holes.updated hupd, h.logged.updated hr ?_ hupd, ?_, ?_, ?_⟩, hupd.index, ?_, ?_⟩
  · unfold updateRequest getIndex
    simp only [hr, hi, Result.ok_bind, hts, hok, hr']
    rfl
  · rw [← hr']
    rfl
  · show b'.batchUpdateBuilder.Records A
    rw [hupd.builder]
    exact h.records
  · show b'.batchUpdateBuilder.moved = []
    rw [hupd.builder]
    exact h.moved
  · show b'.reqIds.length ≤ _
    rw [hupd.reqIds]
    exact h.room
  · intro x hx
    show (st.requests.set u.reqId r').get? x = _
    rw [Dict.get?_set, if_neg (Ne.symm hx)]
  · intro blockIds
    -- the index behind `i` shows that the layout is the same
    exact fits_congr (congrArg Row.tables (hupd.row (i + 1) (Nat.succ_ne_self i))) blockIds

theorem updateRequests_working [Zero F] (h : Working c w A st) {us : List RowUpdate}
    (hnodup : (us.map RowUpdate.reqId).Nodup) (hus : ∀ u ∈ us, u.Allowed c st) :
    ∃ st', us.foldlM (updateRequest c) st = .ok st' ∧ Working c w A st' ∧
      st'.batch.reqIdToIndex = st.batch.reqIdToIndex ∧
      ∀ blockIds, Fits st'.batch.blockTable blockIds ↔ Fits st.batch.blockTable blockIds := by
  obtain ⟨st', hok, -, -, hw, hindex, hfits⟩ := Result.foldlM_ok (f := updateRequest c)
    (P := fun (s : ModelRunner F F32 G E) (l : List RowUpdate) =>
      (l.map RowUpdate.reqId).Nodup ∧ (∀ u ∈ l, u.Allowed c s) ∧ Working c w A s ∧
      s.batch.reqIdToIndex = st.batch.reqIdToIndex ∧
      ∀ blockIds, Fits s.batch.blockTable blockIds ↔ Fits st.batch.blockTable blockIds)
    (fun s u l ⟨hnodup, hall, hw, hindex, hfits⟩ => by
      obtain ⟨s', hok, hw', hindex', hreq, hfits'⟩ :=
        updateRequest_working hw (hall u List.mem_cons_self)
      rw [List.map_cons, List.nodup_cons] at hnodup
      refine ⟨s', hok, hnodup.2, fun v hv => ?_, hw', hindex'.trans hindex,
        fun blockIds => (hfits' blockIds).trans (hfits blockIds)⟩
      have hv' := hall v (List.mem_cons_of_mem u hv)
      have hne : v.reqId ≠ u.reqId := fun heq =>
        hnodup.1 (heq ▸ List.mem_map_of_mem hv)
      have hget := hreq v.reqId hne
      constructor
      · rw [hindex']
        exact hv'.live
      · rw [hget]
        exact hv'.groups
      · intro r hr
        rw [hget] at hr
        exact (hfits' _).mpr (hv'.fits r hr)
      · rw [hget]
        exact hv'.drafts)
    ⟨hnodup, hus, h, rfl, fun _ => Iff.rfl⟩
  exact ⟨st', hok, hw, hindex, hfits⟩

structure Settled [Zero F] (c : InputBatchConfig F F32) (st : ModelRunner F F32 G E) : Prop where
  core : Core c st.requests st.batch
  dense : Dense st.batch
  fresh : st.batch.batchUpdateBuilder.removed = [] ∧ st.batch.batchUpdateBuilder.added = [] ∧
    st.batch.batchUpdateBuilder.moved = []
  unsorted : st.batch.batchUpdateBuilder.isRemovedSorted = false
  room : st.batch.numReqs ≤ c.maxNumReqs

theorem Settled.working [Zero F] (h : Settled c st) (hw : w.start = w.slotValue st.requests st.batch) :
    Working c w A st := by
  obtain ⟨hremoved, hadded, hmoved⟩ := h.fresh
  refine ⟨h.core, ⟨?_, fun i => ?_, ?_, ?_⟩, ?_, ⟨?_, ?_⟩, hmoved, ?_⟩
  · rw [hremoved]
    exact List.nodup_nil
  · rw [hremoved]
    refine iff_of_false (by simp) fun hi => ?_
    have hlt := (List.getElem?_eq_some_iff.mp hi).1
    rw [h.dense.length] at hlt
    obtain ⟨x, hx⟩ := h.dense.full i hlt
    rw [hi] at hx
    cases hx
  · rw [hremoved, h.dense.length]
    rfl
  · intro hs
    rw [h.unsorted] at hs
    cases hs
  · refine Eq.trans ?_ hw
    rw [Follower.after, hremoved, hadded, hmoved]
    rfl
  · rw [hadded]
    exact fun _ h => by cases h
  · rw [hmoved]
    exact fun _ h => by cases h
  · rw [h.dense.length]
    exact h.room

section Add

variable [Zero F] [One F] [LT F] [DecidableLT F] [DecidableEq F]

theorem addRequest_working (h : Working c w A st) {r : CachedRequestState F G E}
    {spec : List Token} (hnew : st.batch.reqIdToIndex.get? r.reqId = none)
    (hsize : st.batch.numReqs < c.maxNumReqs) (hr : r.Allowed c st spec)
    (hA : ∀ params ∈ r.samplingParams, A params) :
    ∃ st', addRequest c st (r, spec) = .ok st' ∧ Working c w A st' ∧
      (∃ i, st'.batch.reqIdToIndex = st.batch.reqIdToIndex.set r.reqId i) ∧
      ∀ blockIds, Fits st'.batch.blockTable blockIds ↔ Fits st.batch.blockTable blockIds := by
  obtain ⟨params, hp⟩ := Option.ne_none_iff_exists'.mp hr.sampling
  have hlt := h.holes.nextIndex_lt
  obtain ⟨-, -, -, hle, hfree, -⟩ := h.holes.nextIndex
  generalize hi : st.batch.batchUpdateBuilder.popRemoved.1.getD st.batch.numReqs = i
    at hlt hle hfree
  have hroom := h.room
  have hmax : i < c.maxNumReqs := by omega
  have htokens : r.numTokens ≤ c.maxModelLen := Nat.le_of_add_right_le hr.tokens
  obtain ⟨b₁, hadd, ha⟩ := addRequest_spec (c := c) hi hmax hle hp htokens hr.fits
  have hhold := ha.holds (h.core.free i hfree).1 (h.core.free i hfree).2
  have hi₁ : b₁.reqIdToIndex.get? r.reqId = some i := by
    rw [ha.index, Dict.get?_set, if_pos rfl]
  obtain ⟨b₂, hspec, hu⟩ := updateReqSpecTokenIds_spec (c := c) (r := r) hi₁ hhold.numTokens
    hr.tokens
  have hcore := h.core.added hfree hnew ha
  have hslot := (hcore.index _ _).mp hi₁
  have hholes := (h.holes.added hi hnew ha).updated hu
  have hget : (st.requests.set r.reqId r).get? r.reqId = some r := by
    rw [Dict.get?_set, if_pos rfl]
  have hcore₂ := hcore.updated hslot hget hu
  have hlog := (h.logged.added h.core h.holes h.moved hi hnew ha).updated hget rfl hu
  rw [Dict.set_eq_self hget] at hcore₂ hlog
  obtain ⟨params', hparams', hbuilder⟩ := ha.builder
  obtain ⟨hsame, hsame'⟩ := st.batch.batchUpdateBuilder.popRemoved_same
  refine ⟨⟨b₂, st.requests.set r.reqId r⟩, ?_, ⟨hcore₂, hholes, hlog, ?_, ?_, ?_⟩, ⟨i, ?_⟩, ?_⟩
  · simp only [addRequest, hadd, Result.ok_bind, hspec]
    rfl
  · show b₂.batchUpdateBuilder.Records A
    rw [hu.builder, hbuilder]
    refine ⟨fun a ha => ?_, hsame ▸ h.records.moved⟩
    rw [hsame'] at ha
    rcases List.mem_append.mp ha with ha | ha
    · exact h.records.added a ha
    · cases List.mem_singleton.mp ha
      exact hA params' hparams'
  · show b₂.batchUpdateBuilder.moved = []
    rw [hu.builder, hbuilder]
    exact hsame.trans h.moved
  · have hlen : b₁.reqIds.length ≤ c.maxNumReqs := by
      by_contra hgt
      have hget := ha.slots c.maxNumReqs
      rw [if_neg (Nat.ne_of_gt hmax), List.getElem?_eq_getElem (Nat.not_le.mp hgt),
        List.getElem?_eq_none hroom] at hget
      cases hget
    show b₂.reqIds.length ≤ _
    rw [hu.reqIds]
    exact hlen
  · rw [hu.index, ha.index]
  · intro blockIds
    have hrow := (hu.row (i + 1) (Nat.succ_ne_self i)).trans (ha.row (i + 1) (Nat.succ_ne_self i))
    exact fits_congr (congrArg Row.tables hrow) blockIds

theorem addRequests_working (h : Working c w A st) {as : List (CachedRequestState F G E × List Token)}
    (hnodup : (as.map fun a => a.1.reqId).Nodup)
    (hnew : ∀ a ∈ as, st.batch.reqIdToIndex.get? a.1.reqId = none)
    (hsize : st.batch.numReqs + as.length ≤ c.maxNumReqs)
    (has : ∀ a ∈ as, a.1.Allowed c st a.2)
    (hA : ∀ a ∈ as, ∀ params ∈ a.1.samplingParams, A params) :
    ∃ st', as.foldlM (addRequest c) st = .ok st' ∧ Working c w A st' ∧
      st'.batch.numReqs = st.batch.numReqs + as.length := by
  obtain ⟨st', hok, -, -, -, -, hw, hnum⟩ := Result.foldlM_ok (f := addRequest c)
    (P := fun (s : ModelRunner F F32 G E) (l : List (CachedRequestState F G E × List Token)) =>
      (l.map fun a => a.1.reqId).Nodup ∧
      (∀ a ∈ l, s.batch.reqIdToIndex.get? a.1.reqId = none) ∧
      (∀ a ∈ l, a.1.Allowed c s a.2) ∧ (∀ a ∈ l, ∀ params ∈ a.1.samplingParams, A params) ∧
      Working c w A s ∧
      s.batch.numReqs + l.length = st.batch.numReqs + as.length)
    (fun s a l ⟨hnodup, hnew, hall, hA, hw, hnum⟩ => by
      have hself := hnew a List.mem_cons_self
      have hlt : s.batch.numReqs < c.maxNumReqs := by
        rw [List.length_cons] at hnum
        omega
      obtain ⟨s', hok, hw', ⟨i, hindex⟩, hfits⟩ :=
        addRequest_working hw hself hlt (hall a List.mem_cons_self) (hA a List.mem_cons_self)
      rw [List.map_cons, List.nodup_cons] at hnodup
      refine ⟨s', hok, hnodup.2, fun x hx => ?_, fun x hx => ?_,
        fun x hx => hA x (List.mem_cons_of_mem a hx), hw', ?_⟩
      · have hne : ¬ a.1.reqId = x.1.reqId := fun heq =>
          hnodup.1 (heq ▸ List.mem_map_of_mem (f := fun a => a.1.reqId) hx)
        rw [hindex, Dict.get?_set, if_neg hne]
        exact hnew x (List.mem_cons_of_mem a hx)
      · have hx' := hall x (List.mem_cons_of_mem a hx)
        exact ⟨hx'.sampling, hx'.tokens, (hfits _).mpr hx'.fits⟩
      · have hset := Dict.size_set s.batch.reqIdToIndex a.1.reqId i
        rw [hself] at hset
        rw [numReqs, hindex]
        unfold numReqs at hnum ⊢
        simp only [Option.map_none, Option.getD_none, List.length_cons] at hset hnum
        omega)
    ⟨hnodup, hnew, has, hA, h, rfl⟩
  exact ⟨st', hok, hw, hnum⟩

theorem condenseStates_spec (hc : c.isPoolingModel = false) (h : Working c w A st)
    (hs : st.batch.batchUpdateBuilder.isRemovedSorted = false) {s : BatchStep F G E}
    (hstep : s.Allowed c st) (hA : ∀ a ∈ s.added, ∀ params ∈ a.1.samplingParams, A params) :
    ∃ st', st.condenseStates c s = .ok st' ∧ Core c st'.requests st'.batch ∧ Dense st'.batch ∧
      w.Logged st'.requests st'.batch ∧ st'.batch.batchUpdateBuilder.Records A ∧
      st'.batch.numReqs = s.size st := by
  obtain ⟨st₁, hok₁, h₁, hindex₁, hreq₁, htab₁⟩ := removeRequests_working hc h hs s.removed
  have hkeys : ∀ x, x ∈ st₁.batch.reqIdToIndex.keys ↔
      x ∈ st.batch.reqIdToIndex.keys.filter (· ∉ s.removed) := by
    intro x
    simp only [Dict.mem_keys, hindex₁, List.mem_filter]
    by_cases hx : x ∈ s.removed <;> simp [hx]
  have hnum₁ : st₁.batch.numReqs = (st.batch.reqIdToIndex.keys.filter (· ∉ s.removed)).length :=
    Dict.size_of_keys (st.batch.reqIdToIndex.nodup.filter _) hkeys
  have hupdates : ∀ u ∈ s.updates, u.Allowed c st₁ := by
    intro u hu
    obtain ⟨hnot, hu⟩ := hstep.updates u hu
    constructor
    · rw [hkeys, List.mem_filter]
      exact ⟨hu.live, by simpa using hnot⟩
    · rw [hreq₁]
      exact hu.groups
    · rw [hreq₁, htab₁]
      exact hu.fits
    · rw [hreq₁]
      exact hu.drafts
  obtain ⟨st₂, hok₂, h₂, hindex₂, hfits₂⟩ :=
    updateRequests_working h₁ hstep.updatesOnce hupdates
  have hnew : ∀ a ∈ s.added, st₂.batch.reqIdToIndex.get? a.1.reqId = none := by
    intro a ha
    rw [hindex₂, hindex₁]
    split
    · rfl
    · rename_i hnot
      rw [Dict.get?_eq_none]
      exact fun hmem => hnot ((hstep.added a ha).2 hmem)
  have hadded : ∀ a ∈ s.added, a.1.Allowed c st₂ a.2 := by
    intro a ha
    have ha := (hstep.added a ha).1
    refine ⟨ha.sampling, ha.tokens, (hfits₂ _).mpr ?_⟩
    rw [htab₁]
    exact ha.fits
  have hnum₂ : st₂.batch.numReqs = st₁.batch.numReqs := by rw [numReqs, hindex₂, ← numReqs]
  have hsize : st₂.batch.numReqs + s.added.length = s.size st := by
    rw [hnum₂, hnum₁]
    rfl
  obtain ⟨st₃, hok₃, h₃, hnum₃⟩ :=
    addRequests_working h₂ hstep.addedOnce hnew (hsize ▸ hstep.capacity) hadded hA
  obtain ⟨b, hok, hcore, hdense, hlog, hrec, hnum⟩ :=
    condense_spec hc h₃.core h₃.holes h₃.moved h₃.logged h₃.records
  refine ⟨st₃.withBatch b, ?_, hcore, hdense, hlog, hrec, hnum.trans (hnum₃.trans hsize)⟩
  simp only [condenseStates, hok₁, hok₂, hok₃, hok, Result.ok_bind]
  rfl

end Add

end ModelRunner

namespace Follower

def follow (w : Follower F V) : Option (BatchUpdate F) → Nat → V
  | some u => BatchReplay.replay w.zero w.value w.start u.added u.removed u.moved
  | none => w.start

theorem follow_refreshMetadata {c : InputBatchConfig F F32} (hc : c.isPoolingModel = false)
    (w : Follower F V) (b : InputBatch F F32 G E) :
    w.follow (b.refreshMetadata c).1 = w.after b.batchUpdateBuilder ∧
      (∀ u ∈ (b.refreshMetadata c).1,
        u.added = b.batchUpdateBuilder.added ∧ u.moved = b.batchUpdateBuilder.moved) ∧
      ∃ u, (b.refreshMetadata c).2 = b.withBuilder u ∧
        (u.removed = [] ∧ u.added = [] ∧ u.moved = []) ∧ u.isRemovedSorted = false := by
  have hrefresh : b.refreshMetadata c = ((b.batchUpdateBuilder.getAndReset b.numReqs).1,
      b.withBuilder (b.batchUpdateBuilder.getAndReset b.numReqs).2) := by
    simp only [refreshMetadata, hc]
    rfl
  rw [hrefresh]
  by_cases hempty : b.batchUpdateBuilder.removed = [] ∧ b.batchUpdateBuilder.moved.isEmpty ∧
      b.batchUpdateBuilder.added.isEmpty
  · rw [BatchUpdateBuilder.getAndReset, if_pos hempty]
    obtain ⟨hremoved, hmoved, hadded⟩ := hempty
    have hmoved := List.isEmpty_iff.mp hmoved
    have hadded := List.isEmpty_iff.mp hadded
    refine ⟨?_, fun _ h => absurd h (by simp), _, rfl, ⟨hremoved, hadded, hmoved⟩, rfl⟩
    rw [after, hremoved, hmoved, hadded]
    rfl
  · rw [BatchUpdateBuilder.getAndReset, if_neg hempty]
    refine ⟨rfl, fun u hu => ?_, _, rfl, ⟨rfl, rfl, rfl⟩, rfl⟩
    cases hu
    exact ⟨rfl, rfl⟩

end Follower

namespace ModelRunner

variable [Zero F] [One F] [LT F] [DecidableLT F] [DecidableEq F]
variable {c : InputBatchConfig F F32} {w : Follower F V} {st : ModelRunner F F32 G E}
variable {A : SamplingParams F → Prop}

theorem updateStates_spec (hc : c.isPoolingModel = false) (h : Settled c st)
    (hw : w.start = w.slotValue st.requests st.batch) {s : BatchStep F G E}
    (hstep : s.Allowed c st) (hA : ∀ a ∈ s.added, ∀ params ∈ a.1.samplingParams, A params) :
    ∃ u st', st.updateStates c s = .ok (u, st') ∧ Settled c st' ∧
      w.follow u = w.slotValue st'.requests st'.batch ∧
      ∀ u' ∈ u, (∀ a ∈ u'.added, A a.params) ∧ OneWay u'.moved := by
  obtain ⟨st₁, hok₁, hcore, hdense, hlog, hrec, hnum⟩ :=
    condenseStates_spec hc (h.working hw) h.unsorted hstep hA
  obtain ⟨b, hok₂, -, hcore, hdense, hlog, hrec, hnum⟩ := Result.foldlM_ok
    (f := fun (b : InputBatch F F32 G E) (p : Nat × Nat) => b.swapStates c p.1 p.2)
    (P := fun (b : InputBatch F F32 G E) (l : List (Nat × Nat)) =>
      (∀ p ∈ l, p.1 < s.size st ∧ p.2 < s.size st) ∧ Core c st₁.requests b ∧ Dense b ∧
      w.Logged st₁.requests b ∧ b.batchUpdateBuilder.Records A ∧ b.numReqs = s.size st)
    (fun b p l ⟨hall, hcore, hdense, hlog, hrec, hnum⟩ => by
      have hp := hall p List.mem_cons_self
      rw [← hnum] at hp
      obtain ⟨b', hok, hcore, hdense, hlog, hrec, hnum'⟩ :=
        swapStates_keeps hc hcore hdense hlog hrec hp.1 hp.2
      exact ⟨b', hok, fun q hq => hall q (List.mem_cons_of_mem p hq), hcore, hdense, hlog, hrec,
        hnum'.trans hnum⟩)
    ⟨hstep.swaps, hcore, hdense, hlog, hrec, hnum⟩
  obtain ⟨hfollow, hupdate, u, hrefresh, hfresh, hunsorted⟩ := w.follow_refreshMetadata hc b
  refine ⟨(b.refreshMetadata c).1, st₁.withBatch (b.withBuilder u), ?_,
    ⟨hcore.withBuilder u, ⟨hdense.length, hdense.full⟩, hfresh, hunsorted, ?_⟩,
    hfollow.trans hlog, fun u' hu' => ?_⟩
  · simp only [updateStates, hok₁, hok₂, Result.ok_bind]
    rw [← hrefresh]
    rfl
  · exact hnum.le.trans hstep.capacity
  · obtain ⟨hadded, hmoved⟩ := hupdate u' hu'
    rw [hadded, hmoved]
    exact ⟨hrec.added, hrec.moved⟩

end ModelRunner

/-- Positional consistency: without gaps, and with every index's data those of its request. -/
structure Consistent [Zero F] (c : InputBatchConfig F F32)
    (requests : Dict ReqId (CachedRequestState F G E)) (b : InputBatch F F32 G E) : Prop where
  noGap : none ∉ b.reqIds
  length : b.reqIds.length = b.numReqs
  index : ∀ id i, b.reqIdToIndex.get? id = some i ↔ b.reqIds[i]? = some (some id)
  rows : ∀ i id, b.reqIds[i]? = some (some id) →
    ∃ r, requests.get? id = some r ∧ (b.row i).Holds c r
  generators : ∀ i, b.generators.get? i ≠ none → ∃ id, b.reqIds[i]? = some (some id)
  badWords : ∀ i, b.badWordsTokenIds.get? i ≠ none → ∃ id, b.reqIds[i]? = some (some id)
  lora : ∀ l ids, b.loraIdToRequestIds.get? l = some ids → l ≠ 0 ∧ ids ≠ ∅
  loraUsers : ∀ l x, x ∈ b.loraUsers l ↔ l ≠ 0 ∧ x ∈ b.reqIdToIndex.keys ∧
    ∃ r, requests.get? x = some r ∧ r.loraId = l

theorem Core.consistent [Zero F] {c : InputBatchConfig F F32}
    {requests : Dict ReqId (CachedRequestState F G E)} {b : InputBatch F F32 G E}
    (h : Core c requests b) (hdense : Dense b) : Consistent c requests b := by
  have hfree : ∀ i, (b.generators.get? i ≠ none ∨ b.badWordsTokenIds.get? i ≠ none) →
      ∃ id, b.reqIds[i]? = some (some id) := by
    intro i hi
    by_contra hnone
    obtain ⟨hg, hb⟩ := h.free i fun id hid => hnone ⟨id, hid⟩
    exact hi.elim (fun hi => hi hg) (fun hi => hi hb)
  refine ⟨fun hnone => ?_, hdense.length, h.index, h.rows, fun i hi => hfree i (.inl hi),
    fun i hi => hfree i (.inr hi), fun l ids hl => ?_, fun l x => ?_⟩
  · obtain ⟨i, hi⟩ := List.mem_iff_getElem?.mp hnone
    have hlt := (List.getElem?_eq_some_iff.mp hi).1
    rw [hdense.length] at hlt
    obtain ⟨x, hx⟩ := hdense.full i hlt
    rw [hi] at hx
    cases hx
  · have hne := h.idle l ids hl
    obtain ⟨x, hx⟩ := Finset.nonempty_iff_ne_empty.mpr hne
    have husers : x ∈ b.loraUsers l := by
      rw [InputBatch.loraUsers, hl]
      exact hx
    exact ⟨((h.users l x).mp husers).1, hne⟩
  · rw [h.users]
    constructor
    · rintro ⟨hl, i, hi, hli⟩
      obtain ⟨r, hr, hrow⟩ := h.rows i x hi
      exact ⟨hl, Dict.mem_keys.mpr ⟨i, (h.index x i).mpr hi⟩, r, hr, hrow.loraId.symm.trans hli⟩
    · rintro ⟨hl, hx, r, hr, hrl⟩
      obtain ⟨i, hi⟩ := Dict.mem_keys.mp hx
      have hi := (h.index x i).mp hi
      obtain ⟨r', hr', hrow⟩ := h.rows i x hi
      rw [hr] at hr'
      cases hr'
      exact ⟨hl, i, hi, hrow.loraId.trans hrl⟩

section Run

variable [Zero F] [One F] [LT F] [DecidableLT F] [DecidableEq F] {c : InputBatchConfig F F32}

namespace ModelRunner

def init (c : InputBatchConfig F F32) (blockTable : MultiGroupBlockTable) :
    ModelRunner F F32 G E :=
  ⟨InputBatch.init c blockTable, .empty⟩

def step (c : InputBatchConfig F F32) (st : ModelRunner F F32 G E)
    (s : BatchStep F G E) : Result (ModelRunner F F32 G E) :=
  Prod.snd <$> st.updateStates c s

omit [One F] [LT F] [DecidableLT F] [DecidableEq F] in
theorem Settled.init (c : InputBatchConfig F F32) (blockTable : MultiGroupBlockTable) :
    Settled c (ModelRunner.init c blockTable : ModelRunner F F32 G E) where
  core := {
    index := fun _ _ => by simp [ModelRunner.init, InputBatch.init]
    rows := fun _ _ h => by simp [ModelRunner.init, InputBatch.init] at h
    free := fun _ _ => ⟨rfl, rfl⟩
    users := fun _ _ => by simp [ModelRunner.init, InputBatch.init, InputBatch.loraUsers]
    idle := fun _ _ h => by simp [ModelRunner.init, InputBatch.init] at h
    lists := ⟨rfl, Nat.zero_le _⟩ }
  dense := ⟨rfl, fun _ h => absurd h (Nat.not_lt_zero _)⟩
  fresh := ⟨rfl, rfl, rfl⟩
  unsorted := rfl
  room := Nat.zero_le _

theorem Settled.step {st : ModelRunner F F32 G E} (hc : c.isPoolingModel = false)
    (h : Settled c st) {s : BatchStep F G E} (hs : s.Allowed c st) :
    ∃ st', st.step c s = .ok st' ∧ Settled c st' := by
  obtain ⟨u, st', hok, hsettled, -⟩ := updateStates_spec
    (w := ⟨(), fun _ _ _ => (), fun _ => ()⟩) (A := fun _ => True) hc h rfl hs
    (fun _ _ _ _ => trivial)
  refine ⟨st', ?_, hsettled⟩
  rw [ModelRunner.step, hok]
  rfl

end ModelRunner

/-- Every run of allowed steps of a sampling model succeeds. The batch is consistent between its
steps, and within any further one as soon as it is condensed. -/
theorem consistent_of_allowed (hc : c.isPoolingModel = false) (blockTable : MultiGroupBlockTable)
    (ss : List (BatchStep F G E))
    (hss : Guarded (ModelRunner.step c) (fun st s => s.Allowed c st)
      (ModelRunner.init c blockTable) ss) :
    (∃ st, runSteps (ModelRunner.step c) (ModelRunner.init c blockTable) ss = .ok st) ∧
      Throughout (ModelRunner.step c) (fun st => Consistent c st.requests st.batch ∧
        ∀ s : BatchStep F G E, s.Allowed c st → ∃ st', st.condenseStates c s = .ok st' ∧
          Consistent c st'.requests st'.batch) (ModelRunner.init c blockTable) ss := by
  have hinit : Settled c (ModelRunner.init c blockTable : ModelRunner F F32 G E) := Settled.init c _
  constructor
  · obtain ⟨st, hrun, -⟩ := run_ok_of_inv (fun _ _ h hs => h.step hc hs) hinit hss
    exact ⟨st, hrun⟩
  · refine throughout_of_inv (fun st s st' h hs hok => ?_) (fun st h => ⟨?_, fun s hs => ?_⟩)
      hinit hss
    · obtain ⟨st'', hok', h'⟩ := h.step hc hs
      rw [hok] at hok'
      cases hok'
      exact h'
    · exact h.core.consistent h.dense
    · obtain ⟨st', hok, hcore, hdense, -⟩ := condenseStates_spec
        (w := ⟨(), fun _ _ _ => (), fun _ => ()⟩) (A := fun _ => True) hc (h.working rfl)
        h.unsorted hs (fun _ _ _ _ => trivial)
      exact ⟨st', hok, hcore.consistent hdense⟩

instance (ts : MultiGroupBlockTable) (blockIds : List (List Nat)) : Decidable (Fits ts blockIds) :=
  have : ∀ (t : BlockTable) ids, Decidable (t.Fits ids) := fun t ids =>
    inferInstanceAs (Decidable ((t.kernelBlocks ids).length ≤ t.maxNumBlocksPerReq))
  inferInstanceAs (Decidable (List.Forall₂ BlockTable.Fits ts blockIds))

omit [Zero F] [One F] [LT F] [DecidableLT F] [DecidableEq F] in
instance (st : ModelRunner F F32 G E) (u : RowUpdate) : Decidable (u.Allowed c st) :=
  decidable_of_iff (u.reqId ∈ st.batch.reqIdToIndex.keys ∧
    (∀ r ∈ st.requests.get? u.reqId, u.newBlockIds.length = r.blockIds.length) ∧
    (∀ r ∈ st.requests.get? u.reqId,
      Fits st.batch.blockTable (extendBlockIds r.blockIds u.newBlockIds)) ∧
    ∀ r ∈ st.requests.get? u.reqId, r.numTokens + u.specTokenIds.length ≤ c.maxModelLen)
    ⟨fun ⟨h₁, h₂, h₃, h₄⟩ => ⟨h₁, h₂, h₃, h₄⟩, fun h => ⟨h.live, h.groups, h.fits, h.drafts⟩⟩

instance (st : ModelRunner F F32 G E) (r : CachedRequestState F G E) (spec : List Token) :
    Decidable (r.Allowed c st spec) :=
  decidable_of_iff (r.samplingParams.isSome ∧ r.numTokens + spec.length ≤ c.maxModelLen ∧
    Fits st.batch.blockTable r.blockIds)
    ⟨fun ⟨h₁, h₂, h₃⟩ => ⟨fun h => (by rw [h] at h₁; cases h₁), h₂, h₃⟩,
      fun h => ⟨Option.isSome_iff_ne_none.mpr h.sampling, h.tokens, h.fits⟩⟩

instance (st : ModelRunner F F32 G E) (s : BatchStep F G E) : Decidable (s.Allowed c st) :=
  decidable_of_iff ((∀ u ∈ s.updates, u.reqId ∉ s.removed ∧ u.Allowed c st) ∧
    (s.updates.map RowUpdate.reqId).Nodup ∧
    (∀ a ∈ s.added, a.1.Allowed c st a.2 ∧
      (a.1.reqId ∈ st.batch.reqIdToIndex.keys → a.1.reqId ∈ s.removed)) ∧
    (s.added.map fun a => a.1.reqId).Nodup ∧ s.size st ≤ c.maxNumReqs ∧
    ∀ p ∈ s.swaps, p.1 < s.size st ∧ p.2 < s.size st)
    ⟨fun ⟨h₁, h₂, h₃, h₄, h₅, h₆⟩ => ⟨h₁, h₂, h₃, h₄, h₅, h₆⟩,
      fun h => ⟨h.updates, h.updatesOnce, h.added, h.addedOnce, h.capacity, h.swaps⟩⟩

end Run

section Sample

def sampleConfig : InputBatchConfig Int Int where
  maxNumReqs := 2
  maxModelLen := 8
  vocabSize := 16
  toFloat32 := id

def sampleRequest (id : ReqId) (prompt : List Token) (temperature : Int) (lora : Nat)
    (blocks : List Nat) (hlora : 0 < lora) : CachedRequestState Int Nat Unit where
  reqId := id
  promptTokenIds := some prompt
  samplingParams := some {
    samplingType := .random
    temperature, topP := 1, topK := 0, minP := 0
    frequencyPenalty := 0, presencePenalty := 0, repetitionPenalty := 1
    badWordsTokenIds := [prompt] }
  generator := some temperature.toNat
  blockIds := [blocks]
  numComputedTokens := 0
  loraRequest := some ⟨"lora", lora⟩
  numPromptTokens := prompt.length
  numPromptTokens_eq := rfl
  loraIntId_pos := by simpa using hlora

def sampleTable : BlockTable where
  blockSize := 4
  blocksPerKvBlock := 1
  useHybridBlocks := false
  maxNumBlocksPerReq := 2
  cpKvCacheInterleaveSize := 1
  pcpWorldSize := 1
  pcpRank := 0
  dcpWorldSize := 1
  dcpRank := 0
  cpu := fun _ _ => 0
  gpu := fun _ _ => 0
  numBlocksPerRow := fun _ => 0
  dirty := false

/-- Two requests enter; the first leaves while the second gets a block and the third comes; two change
places; then the one in front leaves, and the other one moves down. -/
def sampleSteps : List (BatchStep Int Nat Unit) :=
  [⟨[], [], [(sampleRequest "a" [1, 2, 3] 1 1 [5] (by decide), []),
      (sampleRequest "b" [4, 5] 2 2 [6] (by decide), [7])], []⟩,
    ⟨["a"], [⟨"b", 2, [[7]], []⟩], [(sampleRequest "c" [6] 3 2 [8] (by decide), [])], [(0, 1)]⟩,
    ⟨["b"], [], [], []⟩]

theorem consistent_of_allowed_sample :
    Guarded (ModelRunner.step sampleConfig) (fun st s => s.Allowed sampleConfig st)
      (ModelRunner.init sampleConfig [sampleTable]) sampleSteps ∧
    ∃ st, runSteps (ModelRunner.step sampleConfig) (ModelRunner.init sampleConfig [sampleTable])
      sampleSteps = .ok st ∧ Consistent sampleConfig st.requests st.batch ∧
      st.batch.reqIdToIndex.items = [("c", 0)] := by
  have hguard : Guarded (ModelRunner.step sampleConfig) (fun st s => s.Allowed sampleConfig st)
      (ModelRunner.init sampleConfig [sampleTable]) sampleSteps := by
    decide +kernel
  obtain ⟨st, hrun, hmoved⟩ := Result.exists_of_holds (x := runSteps (ModelRunner.step sampleConfig)
      (ModelRunner.init sampleConfig [sampleTable]) sampleSteps)
    (p := fun st => st.batch.reqIdToIndex.items = [("c", 0)]) (by decide +kernel)
  rw [decide_eq_true_eq] at hmoved
  exact ⟨hguard, st, hrun, ((consistent_of_allowed rfl _ _ hguard).2.last hrun).1, hmoved⟩

end Sample

end Vllm.Worker
