import Vllm.CondenseMoves
import Vllm.SwapStates

namespace Vllm.Worker

open InputBatch

variable {F F32 G E : Type}

/-- The operations on the batch, in any order. -/
inductive BatchOp (F G E : Type)
  | addRequest (request : CachedRequestState F G E)
  | removeRequest (reqId : ReqId)
  | condense
  | swapStates (i1 i2 : Nat)
  | refreshMetadata

namespace ModelRunner

variable {c : InputBatchConfig F F32} {st st' : ModelRunner F F32 G E}

section Run

variable [Zero F] [One F] [LT F] [DecidableLT F] [DecidableEq F]

/-- One operation; `requests` keeps every request as it was added. -/
def batchStep (c : InputBatchConfig F F32) (st : ModelRunner F F32 G E) :
    BatchOp F G E → Result (ModelRunner F F32 G E)
  | .addRequest r => do
    let (_, b) ← st.batch.addRequest c r
    return { batch := b, requests := st.requests.set r.reqId r }
  | .removeRequest reqId => st.removeRequest c reqId
  | .condense => do
    let b ← st.batch.condense c
    return st.withBatch b
  | .swapStates i1 i2 => do
    let b ← st.batch.swapStates c i1 i2
    return st.withBatch b
  | .refreshMetadata => .ok (st.withBatch (st.batch.refreshMetadata c).2)

end Run

/-- What the model runner promises: only requests that are not in the batch are added, a pooling
model gets pooling requests, and updates are handed out once the batch is condensed. -/
def OpAllowed (c : InputBatchConfig F F32) (st : ModelRunner F F32 G E) : BatchOp F G E → Prop
  | .addRequest r => st.batch.reqIdToIndex.get? r.reqId = none ∧
      (c.isPoolingModel = true → r.samplingParams = none)
  | .refreshMetadata => none ∉ st.batch.reqIds
  | _ => True

def occupant (st : ModelRunner F F32 G E) (i : Nat) : Option (CachedRequestState F G E) :=
  (st.batch.holder i).bind st.requests.get?

/-- There are prompt embeds at an index exactly if the request there was added with some, and they
are its own; in a pooling model its flag is its own, too. -/
structure OwnData (c : InputBatchConfig F F32) (st : ModelRunner F F32 G E) : Prop where
  embeds : ∀ i, st.batch.reqPromptEmbeds.get? i =
    (st.occupant i).bind CachedRequestState.promptEmbeds
  flags : c.isPoolingModel = true → ∀ i, ∀ r ∈ st.occupant i, ∀ params ∈ r.poolingParams,
    st.batch.logitsProcessingNeedsTokenIds i = params.requiresTokenIds

/-- The operations that leave everybody its own data: no request with embeds is removed, and in a
pooling model no request gets a place whose flag differs from its own. -/
def KeepsOwn (c : InputBatchConfig F F32) (st : ModelRunner F F32 G E) : BatchOp F G E → Prop
  | .removeRequest reqId => st.batch.reqIdToIndex.get? reqId ≠ none →
      ∀ r ∈ st.requests.get? reqId, r.promptEmbeds = none
  | .condense => c.isPoolingModel = true → ∀ m ∈ st.batch.condenseMoves,
      st.batch.logitsProcessingNeedsTokenIds m.1 = st.batch.logitsProcessingNeedsTokenIds m.2
  | .swapStates i1 i2 => c.isPoolingModel = true →
      st.batch.logitsProcessingNeedsTokenIds i1 = st.batch.logitsProcessingNeedsTokenIds i2
  | _ => True

structure Known (c : InputBatchConfig F F32) (st : ModelRunner F F32 G E) : Prop where
  shaped : st.batch.Shaped
  gaps : st.batch.Gaps
  known : ∀ i, st.batch.Occupied i → ∃ r, st.occupant i = some r ∧
    (c.isPoolingModel = true → ∃ params, r.poolingParams = some params)

theorem occupant_eq_none {i : Nat} (h : ¬ st.batch.Occupied i) : st.occupant i = none := by
  rw [occupant, holder_eq_none.mpr h]
  rfl

theorem OwnData.of_map {f : Nat → Nat} (h : OwnData c st)
    (hreq : ∀ i, st'.occupant i = st.occupant (f i))
    (hembeds : ∀ i, st'.batch.reqPromptEmbeds.get? i = st.batch.reqPromptEmbeds.get? (f i))
    (hflags : c.isPoolingModel = true → ∀ i, st'.batch.logitsProcessingNeedsTokenIds i =
      st.batch.logitsProcessingNeedsTokenIds (f i)) : OwnData c st' where
  embeds := by
    intro i
    rw [hembeds, h.embeds, hreq]
  flags := by
    intro hc i r hr params hparams
    rw [hreq] at hr
    rw [hflags hc]
    exact h.flags hc (f i) r hr params hparams

section Remove

theorem removeRequest_keeps (h : Known c st) {id : ReqId}
    (hok : st.removeRequest c id = .ok st') : Known c st' ∧
      (OwnData c st → (OwnData c st' ↔ KeepsOwn c st (.removeRequest id))) := by
  unfold ModelRunner.removeRequest at hok
  rw [Result.bind_eq_ok] at hok
  obtain ⟨⟨x, b⟩, hremove, hok⟩ := hok
  cases hok
  rcases removeRequest_left hremove with ⟨hnone, rfl⟩ | ⟨i, hi, hleft⟩
  · exact ⟨h, fun hown => iff_of_true hown fun hne => absurd hnone hne⟩
  · have hid := (h.shaped.index id i).mp hi
    have hocc : st.batch.Occupied i := ⟨id, hid⟩
    have hholder : ∀ j, b.holder j = if j = i then none else st.batch.holder j := by
      intro j
      rw [holder, hleft.slots hid]
      split <;> rfl
    have hreq : ∀ j, (st.withBatch b).occupant j = if j = i then none else st.occupant j := by
      intro j
      show (b.holder j).bind st.requests.get? = _
      rw [hholder]
      split <;> rfl
    obtain ⟨r, hr, -⟩ := h.known i hocc
    have hget : st.requests.get? id = some r := by
      rw [occupant, holder_eq_some.mpr hid] at hr
      exact hr
    refine ⟨⟨h.shaped.left hi hleft, h.gaps.left hid hleft, ?_⟩, fun hown => ⟨?_, ?_⟩⟩
    · rintro j ⟨x, hx⟩
      have hx := holder_eq_some.mpr hx
      change b.holder j = some x at hx
      rw [hholder] at hx
      split at hx
      · cases hx
      · rename_i hne
        obtain ⟨r, hr, hparams⟩ := h.known j ⟨x, holder_eq_some.mp hx⟩
        refine ⟨r, ?_, hparams⟩
        rw [hreq, if_neg hne]
        exact hr
    · -- what is left of the request must have been nothing
      intro hown' _ r' hr'
      rw [hget] at hr'
      cases hr'
      have hgone := hown'.embeds i
      rw [hreq, if_pos rfl] at hgone
      have hembeds := hown.embeds i
      rw [hr] at hembeds
      exact hembeds.symm.trans ((congrArg (Dict.get? · i) hleft.embeds).symm.trans hgone)
    · intro hkeeps
      have hnone : r.promptEmbeds = none := hkeeps (by rw [hi]; exact Option.some_ne_none _) r hget
      constructor
      case embeds =>
        intro j
        show b.reqPromptEmbeds.get? j = _
        rw [hleft.embeds, hown.embeds, hreq]
        split
        · rename_i hj
          rw [hj, hr]
          exact hnone
        · rfl
      case flags =>
        intro hc j r hr params hparams
        rw [hreq] at hr
        split at hr
        · cases hr
        · show b.logitsProcessingNeedsTokenIds j = _
          rw [hleft.flags]
          exact hown.flags hc j r hr params hparams

end Remove

section Add

variable [Zero F] [One F] [LT F] [DecidableLT F] [DecidableEq F]

theorem addRequest_keeps (h : Known c st) {r : CachedRequestState F G E}
    (hallowed : OpAllowed c st (.addRequest r)) (hok : st.batchStep c (.addRequest r) = .ok st') :
    Known c st' ∧ (OwnData c st → OwnData c st') := by
  obtain ⟨hnew, hpooling⟩ := hallowed
  unfold batchStep at hok
  simp only [Result.bind_eq_ok, Result.pure_eq_ok] at hok
  obtain ⟨⟨i, b⟩, hadd, rfl⟩ := hok
  obtain ⟨hi, -, he⟩ := addRequest_entered hadd
  have hfree := (h.gaps.next h.shaped hi.symm).1
  have hparams : c.isPoolingModel = true → ∃ params, r.poolingParams = some params := by
    intro hc
    have hsampling := hpooling hc
    cases hp : r.poolingParams with
    | some params => exact ⟨params, rfl⟩
    | none =>
      unfold InputBatch.addRequest at hadd
      simp only [hsampling, hp, Result.bind_eq_ok, Result.throw_eq_ok, and_false, exists_false]
        at hadd
  have hholder : ∀ j, b.holder j = if j = i then some r.reqId else st.batch.holder j := by
    intro j
    rw [holder, he.slots]
    split <;> rfl
  have hreq : ∀ j, occupant ⟨b, st.requests.set r.reqId r⟩ j =
      if j = i then some r else st.occupant j := by
    intro j
    unfold occupant
    rw [hholder]
    split
    · rw [Option.bind_some, Dict.get?_set, if_pos rfl]
    · cases hj : st.batch.holder j with
      | none => rfl
      | some id =>
        have hne : r.reqId ≠ id := by
          rintro rfl
          rw [(h.shaped.index _ j).mpr (holder_eq_some.mp hj)] at hnew
          cases hnew
        rw [Option.bind_some, Option.bind_some, Dict.get?_set, if_neg hne]
  refine ⟨⟨h.shaped.entered hnew hfree he, h.gaps.entered h.shaped hi.symm he, ?_⟩, fun hown => ?_⟩
  · rintro j ⟨id, hid⟩
    have hid := holder_eq_some.mpr hid
    change b.holder j = some id at hid
    rw [hreq]
    split
    · exact ⟨r, rfl, hparams⟩
    · rename_i hne
      rw [hholder, if_neg hne] at hid
      exact h.known j ⟨id, holder_eq_some.mp hid⟩
  · have hstale : st.batch.reqPromptEmbeds.get? i = none := by
      rw [hown.embeds, occupant_eq_none hfree]
      rfl
    constructor
    case embeds =>
      intro j
      show b.reqPromptEmbeds.get? j = _
      rw [he.embeds, hreq]
      by_cases hj : j = i
      · subst hj
        rw [if_pos rfl, Option.bind_some]
        cases r.promptEmbeds with
        | none => exact hstale
        | some v => rw [setIfSome, Dict.get?_set, if_pos rfl]
      · rw [if_neg hj, ← hown.embeds]
        cases r.promptEmbeds with
        | none => rfl
        | some v => rw [setIfSome, Dict.get?_set, if_neg (Ne.symm hj)]
    case flags =>
      intro hc j r' hr' params hp
      show b.logitsProcessingNeedsTokenIds j = _
      rw [hreq] at hr'
      obtain ⟨params', hp'⟩ := hparams hc
      rw [he.flags, hpooling hc, hp']
      split at hr'
      · rename_i hj
        cases hr'
        rw [hp'] at hp
        cases hp
        rw [hj]
        exact Function.update_self ..
      · rename_i hj
        refine (Function.update_of_ne hj ..).trans ?_
        exact hown.flags hc j r' hr' params hp

end Add

section Swap

variable {i1 i2 : Nat}

theorem occupied_of_swapStates {b b' : InputBatch F F32 G E}
    (h : b.swapStates c i1 i2 = .ok b') : b.Occupied i1 ∧ b.Occupied i2 := by
  unfold InputBatch.swapStates at h
  simp only [Result.bind_eq_ok, Result.getItem_eq_ok] at h
  obtain ⟨id1, h1, id2, h2, h⟩ := h
  split at h
  · exact ⟨⟨_, h1⟩, ⟨_, h2⟩⟩
  · cases h

theorem swapStates_keeps (h : Known c st) {b : InputBatch F F32 G E}
    (hok : st.batch.swapStates c i1 i2 = .ok b) : Known c (st.withBatch b) ∧
      (OwnData c st → (OwnData c (st.withBatch b) ↔ KeepsOwn c st (.swapStates i1 i2))) := by
  obtain ⟨h1, h2⟩ := occupied_of_swapStates hok
  obtain ⟨id1, hid1⟩ := id h1
  obtain ⟨id2, hid2⟩ := id h2
  rw [swapStates_eq h.shaped hid1 hid2] at hok
  cases hok
  have hplace := place_swapped (c := c) h.shaped hid1 hid2
  have hslots : ∀ j, (st.batch.swapped c i1 i2 id1 id2).reqIds[j]? =
      st.batch.reqIds[Equiv.swap i1 i2 j]? := fun j => congrArg Place.reqId (hplace j)
  have hreq : ∀ j, (st.withBatch (st.batch.swapped c i1 i2 id1 id2)).occupant j =
      st.occupant (Equiv.swap i1 i2 j) := by
    intro j
    show ((st.batch.swapped c i1 i2 id1 id2).holder j).bind st.requests.get? = _
    rw [holder, hslots]
    rfl
  have hbuilder := builder_swapped (c := c) st.batch i1 i2 id1 id2
  have hflags : ∀ j, (st.batch.swapped c i1 i2 id1 id2).logitsProcessingNeedsTokenIds j =
      st.batch.logitsProcessingNeedsTokenIds j := fun j => congrArg Place.needsTokenIds (hplace j)
  refine ⟨⟨h.shaped.swapped hid1 hid2, ?_, ?_⟩, fun hown => ⟨?_, ?_⟩⟩
  · refine h.gaps.swapped h1 h2 hslots ?_ ?_
    · show (st.batch.swapped c i1 i2 id1 id2).batchUpdateBuilder.removed = _
      rw [hbuilder]
    · show (st.batch.swapped c i1 i2 id1 id2).batchUpdateBuilder.isRemovedSorted = _
      rw [hbuilder]
  · rintro j ⟨x, hx⟩
    rw [hreq]
    exact h.known _ ⟨x, (hslots j).symm.trans hx⟩
  · -- the request that comes to `i1` brings its embeds, but not its flag
    intro hown' hc
    obtain ⟨r, hr, hparams⟩ := h.known i2 h2
    obtain ⟨params, hp⟩ := hparams hc
    have hnew := hown'.flags hc i1 r (by rw [hreq, Equiv.swap_apply_left, hr]; rfl) params hp
    have hold := hown.flags hc i2 r (by rw [hr]; rfl) params hp
    exact (hflags i1).symm.trans (hnew.trans hold.symm)
  · intro hkeeps
    refine hown.of_map hreq (fun j => congrArg Place.embeds (hplace j)) fun hc j => ?_
    rw [Equiv.apply_swap_eq_self (hkeeps hc)]
    exact hflags j

end Swap

section Condense

theorem condense_keeps (h : Known c st) {b : InputBatch F F32 G E}
    (hok : st.batch.condense c = .ok b) : Known c (st.withBatch b) ∧
      (OwnData c st → (OwnData c (st.withBatch b) ↔ KeepsOwn c st .condense)) := by
  obtain ⟨hrel, hshaped, hgaps⟩ := condense_relocated h.gaps h.shaped hok
  have hfrom : ∀ m ∈ st.batch.condenseMoves, st.batch.Occupied m.1 :=
    fun m hm => (movesBelow_bounds hm).1
  have hto : ∀ m ∈ st.batch.condenseMoves, ¬ st.batch.Occupied m.2 := by
    intro m hm
    obtain ⟨removed, hu, hperm, -⟩ :=
      BatchUpdateBuilder.ensureRemovedSorted_spec h.gaps.sorted
    have hmem := (movesBelow_bounds hm).2.2.1
    rw [hu] at hmem
    exact h.gaps.free _ (hperm.mem_iff.mp hmem)
  have hreq : ∀ i j, b.holder i = st.batch.holder j →
      (st.withBatch b).occupant i = st.occupant j := by
    intro i j hij
    show (b.holder i).bind st.requests.get? = _
    rw [hij]
    rfl
  have hcases : ∀ i, (∃ m ∈ st.batch.condenseMoves, i = m.1 ∧ i ≠ m.2) ∨
      (∃ m ∈ st.batch.condenseMoves, i = m.2) ∨
      ∀ m ∈ st.batch.condenseMoves, m.1 ≠ i ∧ m.2 ≠ i := by
    intro i
    by_cases hsrc : ∃ m ∈ st.batch.condenseMoves, i = m.1
    · obtain ⟨m, hm, rfl⟩ := hsrc
      exact .inl ⟨m, hm, rfl, fun heq => hto m hm (heq ▸ hfrom m hm)⟩
    · by_cases htgt : ∃ m ∈ st.batch.condenseMoves, i = m.2
      · exact .inr (.inl htgt)
      · exact .inr (.inr fun m hm =>
          ⟨fun heq => hsrc ⟨m, hm, heq.symm⟩, fun heq => htgt ⟨m, hm, heq.symm⟩⟩)
  refine ⟨⟨hshaped, hgaps, fun i hocc => ?_⟩, fun hown => ⟨fun hown' hc m hm => ?_, fun hkeeps => ?_⟩⟩
  · change b.Occupied i at hocc
    rcases hcases i with ⟨m, hm, rfl, -⟩ | ⟨m, hm, rfl⟩ | hstay
    · exact absurd hocc (holder_eq_none.mp (hrel.gone m hm))
    · rw [hreq _ _ (hrel.arrived m hm)]
      exact h.known m.1 (hfrom m hm)
    · rw [hreq _ _ (hrel.stay i hstay)]
      refine h.known i ?_
      obtain ⟨id, hid⟩ := hocc
      exact ⟨id, holder_eq_some.mp ((hrel.stay i hstay).symm.trans (holder_eq_some.mpr hid))⟩
  · -- the request that comes to `m.2` finds the flag of whoever was there before
    obtain ⟨r, hr, hparams⟩ := h.known m.1 (hfrom m hm)
    obtain ⟨params, hp⟩ := hparams hc
    have hnew := hown'.flags hc m.2 r (by rw [hreq _ _ (hrel.arrived m hm), hr]; rfl) params hp
    have hold := hown.flags hc m.1 r (by rw [hr]; rfl) params hp
    exact hold.trans (hnew.symm.trans (congrFun hrel.flags m.2))
  · constructor
    case embeds =>
      intro i
      show b.reqPromptEmbeds.get? i = _
      rcases hcases i with ⟨m, hm, rfl, -⟩ | ⟨m, hm, rfl⟩ | hstay
      · have hnone : (st.withBatch b).occupant m.1 = none :=
          occupant_eq_none (holder_eq_none.mp (hrel.gone m hm))
        rw [hrel.embedsGone m hm, hnone]
        rfl
      · have hnone : st.batch.reqPromptEmbeds.get? m.2 = none := by
          rw [hown.embeds, occupant_eq_none (hto m hm)]
          rfl
        rw [hrel.embeds m hm, hnone, Option.or_none, hown.embeds, hreq _ _ (hrel.arrived m hm)]
      · rw [hrel.embedsStay i hstay, hown.embeds, hreq _ _ (hrel.stay i hstay)]
    case flags =>
      intro hc i r hr params hp
      show b.logitsProcessingNeedsTokenIds i = _
      rw [hrel.flags]
      rcases hcases i with ⟨m, hm, rfl, -⟩ | ⟨m, hm, rfl⟩ | hstay
      · have hnone : (st.withBatch b).occupant m.1 = none :=
          occupant_eq_none (holder_eq_none.mp (hrel.gone m hm))
        rw [hnone] at hr
        cases hr
      · rw [hreq _ _ (hrel.arrived m hm)] at hr
        rw [← hkeeps hc m hm]
        exact hown.flags hc m.1 r hr params hp
      · rw [hreq _ _ (hrel.stay i hstay)] at hr
        exact hown.flags hc i r hr params hp

end Condense

theorem refreshMetadata_keeps (h : Known c st) (hallowed : OpAllowed c st .refreshMetadata) :
    Known c (st.withBatch (st.batch.refreshMetadata c).2) ∧
      (OwnData c st → OwnData c (st.withBatch (st.batch.refreshMetadata c).2)) := by
  obtain ⟨hshaped, hgaps⟩ := InputBatch.refreshMetadata_keeps (c := c) h.shaped hallowed
  obtain ⟨u, hu⟩ : ∃ u, (st.batch.refreshMetadata c).2 = st.batch.withBuilder u := by
    unfold InputBatch.refreshMetadata
    split <;> exact ⟨_, rfl⟩
  rw [hu] at hshaped hgaps ⊢
  exact ⟨⟨hshaped, hgaps, h.known⟩, fun hown => ⟨hown.embeds, hown.flags⟩⟩

section Run

variable [Zero F] [One F] [LT F] [DecidableLT F] [DecidableEq F]

theorem batchStep_keeps (h : Known c st) {op : BatchOp F G E} (hallowed : OpAllowed c st op)
    (hok : st.batchStep c op = .ok st') :
    Known c st' ∧ (OwnData c st → (OwnData c st' ↔ KeepsOwn c st op)) := by
  cases op with
  | addRequest r =>
    obtain ⟨hknown, hown⟩ := addRequest_keeps h hallowed hok
    exact ⟨hknown, fun h => iff_of_true (hown h) trivial⟩
  | removeRequest id => exact removeRequest_keeps h hok
  | condense =>
    simp only [batchStep, Result.bind_eq_ok, Result.pure_eq_ok] at hok
    obtain ⟨b, hok, rfl⟩ := hok
    exact condense_keeps h hok
  | swapStates i1 i2 =>
    simp only [batchStep, Result.bind_eq_ok, Result.pure_eq_ok] at hok
    obtain ⟨b, hok, rfl⟩ := hok
    exact swapStates_keeps h hok
  | refreshMetadata =>
    cases hok
    obtain ⟨hknown, hown⟩ := refreshMetadata_keeps h hallowed
    exact ⟨hknown, fun h => iff_of_true (hown h) trivial⟩

omit [One F] [LT F] [DecidableLT F] [DecidableEq F] in
theorem Known.init (c : InputBatchConfig F F32) (blockTable : MultiGroupBlockTable) :
    Known c (ModelRunner.init c blockTable : ModelRunner F F32 G E) where
  shaped := (init_shaped c blockTable).1
  gaps := (init_shaped c blockTable).2
  known := by
    rintro i ⟨id, hid⟩
    simp [ModelRunner.init, InputBatch.init] at hid

theorem known_of_run {blockTable : MultiGroupBlockTable} {ops : List (BatchOp F G E)}
    (hops : Guarded (batchStep c) (OpAllowed c) (ModelRunner.init c blockTable) ops)
    (hok : runSteps (batchStep c) (ModelRunner.init c blockTable) ops = .ok st) : Known c st :=
  (throughout_of_inv (fun _ _ _ h hallowed hok => (batchStep_keeps h hallowed hok).1)
    (fun _ h => h) (Known.init c blockTable) hops).last hok

/-- The optional data of all requests are their own throughout a run if and only if every
operation of the run that succeeds leaves everybody its own. -/
theorem ownData_iff (c : InputBatchConfig F F32) (blockTable : MultiGroupBlockTable)
    (ops : List (BatchOp F G E))
    (hops : Guarded (batchStep c) (OpAllowed c) (ModelRunner.init c blockTable) ops) :
    Throughout (batchStep c) (OwnData c) (ModelRunner.init c blockTable) ops ↔
      Guarded (batchStep c) (fun st op => ∀ st', st.batchStep c op = .ok st' → KeepsOwn c st op)
        (ModelRunner.init c blockTable) ops := by
  refine throughout_iff_guarded (fun st op st' h hallowed hok => batchStep_keeps h hallowed hok)
    (Known.init c blockTable) ⟨fun i => rfl, fun hc i r hr => ?_⟩ hops
  cases hr

instance (st : ModelRunner F F32 G E) (op : BatchOp F G E) : Decidable (OpAllowed c st op) :=
  match op with
  | .addRequest r =>
    have : Decidable (r.samplingParams = none) := decidable_of_iff _ Option.isNone_iff_eq_none
    inferInstanceAs (Decidable (_ ∧ _))
  | .refreshMetadata => inferInstanceAs (Decidable (_ ∉ _))
  | .removeRequest _ | .condense | .swapStates _ _ => isTrue trivial

instance (st : ModelRunner F F32 G E) (op : BatchOp F G E) : Decidable (KeepsOwn c st op) :=
  match op with
  | .removeRequest reqId =>
    decidable_of_iff (st.batch.reqIdToIndex.get? reqId = none ∨
        (st.requests.get? reqId).all fun r => r.promptEmbeds.isNone) (by
      simp only [KeepsOwn, Option.all_eq_true, Option.isNone_iff_eq_none, Option.mem_def,
        ne_eq]
      exact or_iff_not_imp_left)
  | .condense => inferInstanceAs (Decidable (_ → ∀ m ∈ _, _ = _))
  | .swapStates _ _ => inferInstanceAs (Decidable (_ → _ = _))
  | .addRequest _ | .refreshMetadata => isTrue trivial

end Run

section Sample

def poolingConfig : InputBatchConfig Int Int := { sampleConfig with isPoolingModel := true }

def embedsRequest (id : ReqId) (embeds : Option (List Nat)) (n : Nat)
    (h : lengthFromPromptTokenIdsOrEmbeds (some (List.replicate n 0)) embeds = .ok n) :
    CachedRequestState Int Nat Nat where
  reqId := id
  promptTokenIds := some (List.replicate n 0)
  promptEmbeds := embeds
  samplingParams := some {
    samplingType := .greedy
    temperature := 0, topP := 1, topK := 0, minP := 0
    frequencyPenalty := 0, presencePenalty := 0, repetitionPenalty := 1 }
  blockIds := [[5]]
  numComputedTokens := 0
  numPromptTokens := n
  numPromptTokens_eq := h
  loraIntId_pos := loraIntId_pos_of_none

def poolingRequest (id : ReqId) (requiresTokenIds : Bool) : CachedRequestState Int Nat Nat where
  reqId := id
  promptTokenIds := some [0]
  samplingParams := none
  poolingParams := some ⟨requiresTokenIds⟩
  blockIds := [[5]]
  numComputedTokens := 0
  numPromptTokens := 1
  numPromptTokens_eq := rfl
  loraIntId_pos := loraIntId_pos_of_none

theorem length_oneToken :
    lengthFromPromptTokenIdsOrEmbeds (some (List.replicate 1 0)) (none : Option (List Nat)) = .ok 1 := rfl

/-- A request with embeds leaves, and one without takes its place. -/
def staleEmbedsRun : List (BatchOp Int Nat Nat) :=
  [.addRequest (embedsRequest "a" (some [7, 8]) 2 rfl), .removeRequest "a",
    .addRequest (embedsRequest "b" none 1 length_oneToken)]

/-- A request moves down to the place of one whose flag was set. -/
def staleFlagRun : List (BatchOp Int Nat Nat) :=
  [.addRequest (poolingRequest "a" true), .addRequest (poolingRequest "b" false),
    .removeRequest "a", .condense]

def ownDataRun : List (BatchOp Int Nat Nat) :=
  [.addRequest (embedsRequest "a" none 1 rfl), .addRequest (embedsRequest "b" (some [7]) 1 rfl),
    .removeRequest "a", .condense, .refreshMetadata,
    .addRequest (embedsRequest "c" (some [8, 9]) 2 rfl), .swapStates 0 1]

theorem ownData_iff_ownDataRun : Throughout (batchStep sampleConfig) (OwnData sampleConfig)
    (ModelRunner.init sampleConfig [sampleTable]) ownDataRun := by
  have hkeeps : Guarded (batchStep sampleConfig) (KeepsOwn sampleConfig)
      (ModelRunner.init sampleConfig [sampleTable]) ownDataRun := by
    decide +kernel
  exact (ownData_iff sampleConfig [sampleTable] ownDataRun (by decide +kernel)).mpr
    (hkeeps.mono fun _ _ hkeep _ _ => hkeep)

theorem not_ownData_stale :
    (Guarded (batchStep sampleConfig) (OpAllowed sampleConfig)
        (ModelRunner.init sampleConfig [sampleTable]) staleEmbedsRun ∧
      ¬ Throughout (batchStep sampleConfig) (OwnData sampleConfig)
        (ModelRunner.init sampleConfig [sampleTable]) staleEmbedsRun) ∧
    Guarded (batchStep poolingConfig) (OpAllowed poolingConfig)
        (ModelRunner.init poolingConfig [sampleTable]) staleFlagRun ∧
      ¬ Throughout (batchStep poolingConfig) (OwnData poolingConfig)
        (ModelRunner.init poolingConfig [sampleTable]) staleFlagRun := by
  refine ⟨⟨by decide +kernel, fun h => ?_⟩, by decide +kernel, fun h => ?_⟩
  · obtain ⟨st, hok, hst⟩ := Result.exists_of_holds
      (x := runSteps (batchStep sampleConfig) (ModelRunner.init sampleConfig [sampleTable])
        staleEmbedsRun)
      (p := fun st => st.batch.reqPromptEmbeds.get? 0 != (st.occupant 0).bind
        CachedRequestState.promptEmbeds) (by decide +kernel)
    exact absurd ((h.last hok).embeds 0) (bne_iff_ne.mp hst)
  · obtain ⟨st, hok, hst⟩ := Result.exists_of_holds
      (x := runSteps (batchStep poolingConfig) (ModelRunner.init poolingConfig [sampleTable])
        staleFlagRun)
      (p := fun st => ((st.occupant 0).bind CachedRequestState.poolingParams).any fun params =>
        st.batch.logitsProcessingNeedsTokenIds 0 != params.requiresTokenIds) (by decide +kernel)
    rw [Option.any_eq_true] at hst
    obtain ⟨params, hparams, hne⟩ := hst
    obtain ⟨r, hr, hp⟩ := Option.bind_eq_some_iff.mp hparams
    exact absurd ((h.last hok).flags rfl 0 r hr params hp) (bne_iff_ne.mp hne)

end Sample

end ModelRunner

end Vllm.Worker
