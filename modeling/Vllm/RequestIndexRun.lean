import Vllm.RequestIndexLaws

namespace Vllm.Frontend

namespace RequestIndexes

variable {w w' : RequestIndexes} {id parent : ReqId} {st : IndexedState}

structure Inv (w : RequestIndexes) : Prop where
  base : w.Base
  external : w.External ∅
  parents : ∀ parent ∈ w.parentRequests, ∃ id, w.LiveChild parent id

theorem Inv.consistent (h : w.Inv)
    (haborts : ∀ id ∈ w.aborted, id ∈ w.liveBefore ∧ id ∉ w.requestStates.keys) : w.Consistent where
  external := h.external
  parents parent := ⟨h.parents parent, fun ⟨id, hid⟩ => h.base.listed parent id hid⟩
  aborts := haborts

theorem Inv.reset (h : w.Inv) : ({ w with liveBefore := [], aborted := [] } : RequestIndexes).Inv where
  base := h.base.congr rfl rfl rfl
  external := h.external.congr rfl rfl
  parents := h.parents

section Finish

variable {externalReqIds : Dict ReqId (List ReqId)} {parentRequests : Finset ReqId}

def without (w : RequestIndexes) (st : IndexedState) (id : ReqId) (externalReqIds : Dict ReqId (List ReqId))
    (parentRequests : Finset ReqId) : RequestIndexes :=
  { w.settleChild st id with
    requestStates := (w.settleChild st id).requestStates.erase id
    externalReqIds, parentRequests }

theorem Base.without_popped (h : w.Base) (hst : w.requestStates.get? id = some st) :
    Popped w (w.without st id externalReqIds parentRequests) id := by
  refine ⟨congrArg (Dict.erase · id) (settleChild_frame w st id).1, fun parent => ?_, fun parent => ?_⟩
  · show (w.settleChild st id).childRequests parent = _ ∨ (w.settleChild st id).childRequests parent = _
    rw [childRequests_settleChild]
    split
    · exact .inr rfl
    · exact .inl rfl
  · exact keys_settleChild (h.parent_known hst) id parent

theorem External.without (hext : ({ w with externalReqIds } : RequestIndexes).External (insert id ∅))
    (hbase : w.Base) (hst : w.requestStates.get? id = some st) :
    (w.without st id externalReqIds parentRequests).External ∅ := by
  have hpop : Popped w (w.without st id externalReqIds parentRequests) id := hbase.without_popped hst
  have hpopped : Popped { w with externalReqIds } (w.without st id externalReqIds parentRequests) id :=
    ⟨hpop.states, hpop.children, hpop.keys⟩
  have hoff := hext.popped (Set.mem_insert id ∅) hpopped rfl
  rw [← Set.union_singleton] at hoff
  refine hoff.forget fun id' hid' hlive => ?_
  cases Set.mem_singleton_iff.1 hid'
  rw [hpopped.states, Dict.mem_keys_erase] at hlive
  exact hlive.1 rfl

theorem Inv.without (h : w.Inv) (hst : w.requestStates.get? id = some st)
    (hext : ({ w with externalReqIds } : RequestIndexes).External (insert id ∅))
    (hsub : parentRequests ⊆ w.parentRequests)
    (hkept : ∀ parent child, child ≠ id → w.LiveChild parent child → parent ∈ parentRequests)
    (hother : ∀ parent ∈ st.parentReq, parent ∈ parentRequests →
      ∃ other, other ≠ id ∧ w.LiveChild parent other) :
    (w.without st id externalReqIds parentRequests).Inv := by
  have hpop : Popped w (w.without st id externalReqIds parentRequests) id := h.base.without_popped hst
  refine ⟨hpop.base h.base hsub fun parent child hchild => ?_, hext.without h.base hst, fun parent hparent => ?_⟩
  · obtain ⟨hne, hlive⟩ := hpop.liveChild hchild
    exact hkept parent child hne hlive
  · have hlive : ∃ other, other ≠ id ∧ w.LiveChild parent other := by
      obtain ⟨child, hchild⟩ := h.parents parent (hsub hparent)
      by_cases heq : child = id
      · subst heq
        obtain ⟨st', hst', hparent'⟩ := hchild
        cases hst.symm.trans hst'
        exact hother parent hparent' hparent
      · exact ⟨child, heq, hchild⟩
    obtain ⟨child, hne, st', hst', hparent'⟩ := hlive
    refine ⟨child, st', ?_, hparent'⟩
    rw [hpop.get?, if_neg (Ne.symm hne)]
    exact hst'

theorem Inv.finish (h : w.Inv) (hst : w.requestStates.get? id = some st)
    (hlast : ∀ parent ∈ st.parentReq, (∃ other, other ≠ id ∧ w.LiveChild parent other) ∨
      ∀ child ∈ w.childRequests parent, child = id) :
    ∃ w', (w.settleChild st id).finishRequest id st = .ok w' ∧ w'.Inv ∧ w'.aborted = w.aborted := by
  obtain ⟨-, hparents, hlists, -, haborted⟩ := settleChild_frame w st id
  obtain ⟨externalReqIds, hremove, hext⟩ := removeInternal_spec h.external hst (Set.notMem_empty id)
  have hok := hremove
    { w.settleChild st id with requestStates := (w.settleChild st id).requestStates.erase id } hlists
  have hlisted : ∀ parent child, child ≠ id → w.LiveChild parent child →
      parent ∈ (w.settleChild st id).parentRequests := by
    intro parent child _ hchild
    rw [hparents]
    exact h.base.listed parent child hchild
  have hall : (w.settleChild st id).parentRequests ⊆ w.parentRequests := hparents ▸ Finset.Subset.refl _
  unfold finishRequest
  dsimp only
  rw [hok, Result.ok_bind]
  cases hparent : st.parentReq with
  | none =>
    refine ⟨_, rfl, h.without hst hext hall hlisted fun parent hmem => ?_, haborted⟩
    rw [hparent] at hmem
    cases hmem
  | some parent =>
    have hchildren : (w.settleChild st id).childRequests parent = (w.childRequests parent).erase id := by
      rw [childRequests_settleChild, if_pos hparent]
    dsimp only
    split
    · rename_i hempty
      have hnone : (w.childRequests parent).erase id = [] := hchildren ▸ List.isEmpty_iff.1 hempty
      have hsub := (Finset.erase_subset parent (w.settleChild st id).parentRequests).trans hall
      refine ⟨_, rfl, h.without hst hext hsub (fun p child hne hlive => ?_) fun p hp hmem => ?_, haborted⟩
      · refine Finset.mem_erase.2 ⟨?_, hlisted p child hne hlive⟩
        rintro rfl
        obtain ⟨st', hst', hparent'⟩ := hlive
        have hmem := (List.mem_erase_of_ne hne).2 (h.base.known child st' p hst' hparent')
        rw [hnone] at hmem
        cases hmem
      · rw [hparent, Option.mem_some_iff] at hp
        exact absurd hp.symm (Finset.ne_of_mem_erase hmem)
    · rename_i hwaits
      refine ⟨_, rfl, h.without hst hext hall hlisted fun p hp _ => ?_, haborted⟩
      refine (hlast p hp).resolve_right fun hids => hwaits ?_
      rw [hparent, Option.mem_some_iff] at hp
      subst hp
      have hnil : (w.childRequests parent).erase id = [] := by
        refine List.eq_nil_iff_forall_not_mem.2 fun child hchild => ?_
        obtain ⟨hne, hmem⟩ := (h.base.nodup parent).mem_erase_iff.1 hchild
        exact hne (hids child hmem)
      exact List.isEmpty_iff.2 (hchildren.trans hnil)

end Finish

section Update

theorem get?_setState (w : RequestIndexes) (id id' : ReqId) (st : IndexedState) :
    (w.setState id st).requestStates.get? id' =
      if id = id' then some st else w.requestStates.get? id' :=
  Dict.get?_set w.requestStates id id' st

theorem Inv.setState {st' : IndexedState} (h : w.Inv) (hst : w.requestStates.get? id = some st)
    (hnone : st.parentReq = none) (hnone' : st'.parentReq = none)
    (hext : st'.externalReqId = st.externalReqId) : (w.setState id st').Inv := by
  have hold : ∀ id' st'' parent, (w.setState id st').requestStates.get? id' = some st'' →
      st''.parentReq = some parent → id' ≠ id ∧ w.requestStates.get? id' = some st'' := by
    intro id' st'' parent hget hparent
    rw [get?_setState] at hget
    split at hget
    · cases hget
      rw [hnone'] at hparent
      cases hparent
    · rename_i hne
      exact ⟨Ne.symm hne, hget⟩
  have hkeys : ∀ id', id' ∈ (w.setState id st').requestStates.keys ↔ id' ∈ w.requestStates.keys := by
    intro id'
    show id' ∈ (w.requestStates.set id st').keys ↔ _
    rw [Dict.mem_keys_set, or_iff_right_iff_imp]
    rintro rfl
    exact live_of_get? hst
  constructor
  case base =>
    constructor
    case known =>
      intro id' st'' parent hget hparent
      exact h.base.known id' st'' parent (hold id' st'' parent hget hparent).2 hparent
    case unique =>
      intro parent child st'' hchild hget
      rw [get?_setState] at hget
      split at hget
      · rename_i heq
        subst heq
        have hparent := h.base.unique parent id st hchild hst
        rw [hnone] at hparent
        cases hparent
      · exact h.base.unique parent child st'' hchild hget
    case nodup => exact h.base.nodup
    case notLive =>
      intro parent hparent hlive
      exact h.base.notLive parent hparent ((hkeys parent).1 hlive)
    case notParent => exact h.base.notParent
    case registered => exact h.base.registered
    case listed =>
      rintro parent child ⟨st'', hget, hparent⟩
      exact h.base.listed parent child ⟨st'', (hold child st'' parent hget hparent).2, hparent⟩
    case plain =>
      intro id' st'' parent hget hparent
      exact h.base.plain id' st'' parent (hold id' st'' parent hget hparent).2 hparent
  case external =>
    refine ⟨h.external.nonempty, fun externalReqId id' => ?_⟩
    show id' ∈ w.externalReqIds.getD externalReqId [] ↔ _
    rw [h.external.mem, get?_setState]
    refine and_congr_right fun _ => ?_
    split
    · rename_i heq
      subst heq
      constructor
      · rintro ⟨st'', hget, heq⟩
        cases hst.symm.trans hget
        exact ⟨st', rfl, hext.trans heq⟩
      · rintro ⟨st'', hget, heq⟩
        cases hget
        exact ⟨st, hst, hext.symm.trans heq⟩
    · rfl
  case parents =>
    intro parent hparent
    obtain ⟨child, st'', hget, hchild⟩ := h.parents parent hparent
    refine ⟨child, st'', ?_, hchild⟩
    rw [get?_setState, if_neg ?_]
    · exact hget
    · rintro rfl
      cases hst.symm.trans hget
      rw [hnone] at hchild
      cases hchild

theorem Inv.finish_single (h : w.Inv) (hst : w.requestStates.get? id = some st)
    (hnone : st.parentReq = none) :
    ∃ w', w.finishRequest id st = .ok w' ∧ w'.Inv ∧ w'.aborted = w.aborted := by
  have hsettle : w.settleChild st id = w := by
    unfold settleChild
    rw [hnone]
  have hfinish := h.finish hst fun parent hparent => by
    rw [hnone] at hparent
    cases hparent
  rwa [hsettle] at hfinish

theorem Inv.updateStreaming (h : w.Inv) (hst : w.requestStates.get? id = some st)
    (hnone : st.parentReq = none) (resumable : Bool) :
    ∃ w', w.updateStreamingRequestState id st resumable = .ok w' ∧ w'.Inv ∧
      w'.aborted = w.aborted := by
  unfold updateStreamingRequestState
  split
  · exact h.finish_single hst hnone
  · exact ⟨_, rfl, h.setState hst hnone hnone rfl, rfl⟩
  · exact ⟨_, rfl, h.setState hst hnone hnone rfl, rfl⟩
  · exact ⟨_, rfl, h.setState hst hnone hnone rfl, rfl⟩
  · exact ⟨_, rfl, h.setState hst hnone hnone rfl, rfl⟩

end Update

section Add

variable {r : IncomingRequest}

theorem mem_items_of_child {child : ReqId} (h : child ∈ w.childRequests parent) :
    ∃ x ∈ w.parents.items, x.1 = parent ∧ child ∈ x.2 := by
  rw [childRequests, Dict.getD] at h
  cases hget : w.parents.get? parent with
  | none =>
    rw [hget] at h
    cases h
  | some children =>
    rw [hget] at h
    exact ⟨(parent, children), Dict.get?_eq_some.1 hget, rfl, h⟩

theorem childRequests_getChildInfo (w : RequestIndexes) (r : IncomingRequest) (parent : ReqId) :
    (w.getChildInfo r).childRequests parent =
      if r.parentReq = some parent then (w.childRequests parent).insert r.requestId
      else w.childRequests parent := by
  unfold getChildInfo
  cases r.parentReq with
  | none => rfl
  | some p =>
    show (w.parents.set p _).getD parent [] = _
    rw [Dict.getD, Dict.get?_set]
    by_cases hp : p = parent
    · subst hp
      rw [if_pos rfl, if_pos rfl]
      rfl
    · rw [if_neg hp, if_neg (by simpa using hp)]
      rfl

theorem mem_childRequests_getChildInfo {child : ReqId} :
    child ∈ (w.getChildInfo r).childRequests parent ↔
      child ∈ w.childRequests parent ∨ child = r.requestId ∧ r.parentReq = some parent := by
  rw [childRequests_getChildInfo]
  split
  · rename_i hp
    rw [List.mem_insert_iff, and_iff_left hp, or_comm]
  · rename_i hp
    exact (or_iff_left fun hmem => hp hmem.2).symm

theorem keys_getChildInfo :
    parent ∈ (w.getChildInfo r).parents.keys ↔
      parent ∈ w.parents.keys ∨ r.parentReq = some parent := by
  unfold getChildInfo
  cases r.parentReq with
  | none => exact (or_iff_left nofun).symm
  | some p =>
    show parent ∈ (w.parents.set p _).keys ↔ _
    rw [Dict.mem_keys_set, Option.some_inj, eq_comm, or_comm]

theorem getChildInfo_frame (w : RequestIndexes) (r : IncomingRequest) :
    (w.getChildInfo r).requestStates = w.requestStates ∧
      (w.getChildInfo r).parentRequests = w.parentRequests ∧
      (w.getChildInfo r).externalReqIds = w.externalReqIds ∧
      (w.getChildInfo r).aborted = w.aborted := by
  unfold getChildInfo
  cases r.parentReq <;> exact ⟨rfl, rfl, rfl, rfl⟩

/-- What the callers promise of a request that is not live. -/
structure Fresh (w : RequestIndexes) (r : IncomingRequest) : Prop where
  dead : r.requestId ∉ w.requestStates.keys
  notParent : r.requestId ∉ (w.getChildInfo r).parents.keys
  child : ∀ parent, r.requestId ∈ w.childRequests parent → r.parentReq = some parent
  parent : ∀ parent ∈ r.parentReq, parent ∉ w.requestStates.keys ∧ parent ≠ r.requestId ∧
    ∀ p, parent ∉ w.childRequests p
  resumable : ∀ parent ∈ r.parentReq, r.resumable = false

theorem Fresh.of_allowed (hallowed : w.AllowedRequest r)
    (hdead : r.requestId ∉ w.requestStates.keys) : w.Fresh r := by
  obtain ⟨hsingle, hchild⟩ := hallowed
  refine ⟨hdead, fun hmem => ?_, fun parent hself => ?_, fun parent hparent => ?_,
    fun parent hparent => (hchild parent hparent).1.1⟩
  · rcases keys_getChildInfo.1 hmem with hmem | hmem
    · cases hparent : r.parentReq with
      | none => exact (hsingle hparent).1 hmem
      | some parent => exact (hchild parent hparent).1.2.2.1 hmem
    · exact (hchild _ hmem).1.2.2.2.1 rfl
  · obtain ⟨x, hx, rfl, hmem⟩ := mem_items_of_child hself
    cases hparent : r.parentReq with
    | none => exact absurd hmem ((hsingle hparent).2 x hx)
    | some parent =>
      by_contra hne
      exact (hchild parent hparent).1.2.2.2.2 x hx (fun heq => hne (congrArg some heq.symm)) hmem
  · obtain ⟨⟨-, -, -, hne, -⟩, hlive, hchildren⟩ := hchild parent hparent
    refine ⟨hlive, Ne.symm hne, fun p hmem => ?_⟩
    obtain ⟨x, hx, -, hmem⟩ := mem_items_of_child hmem
    exact hchildren x hx hmem

def added (w : RequestIndexes) (r : IncomingRequest) (st : IndexedState) : RequestIndexes :=
  { w.getChildInfo r with
    requestStates := w.requestStates.set r.requestId st
    parentRequests := r.parentReq.elim w.parentRequests (insert · w.parentRequests)
    externalReqIds := w.externalReqIds.set r.externalReqId
      (w.externalReqIds.getD r.externalReqId [] ++ [r.requestId]) }

theorem get?_added (w : RequestIndexes) (r : IncomingRequest) (st : IndexedState) (id : ReqId) :
    (w.added r st).requestStates.get? id =
      if r.requestId = id then some st else w.requestStates.get? id :=
  Dict.get?_set w.requestStates r.requestId id st

theorem mem_parentRequests_added :
    parent ∈ (w.added r st).parentRequests ↔
      parent ∈ w.parentRequests ∨ r.parentReq = some parent := by
  unfold added
  cases r.parentReq with
  | none => exact (or_iff_left nofun).symm
  | some p =>
    show parent ∈ insert p w.parentRequests ↔ _
    rw [Finset.mem_insert, Option.some_inj, eq_comm, or_comm]

theorem liveChild_added {child : ReqId} (hfresh : w.Fresh r) (hparent : st.parentReq = r.parentReq) :
    (w.added r st).LiveChild parent child ↔
      w.LiveChild parent child ∨ child = r.requestId ∧ r.parentReq = some parent := by
  unfold LiveChild
  rw [get?_added]
  split
  · rename_i heq
    subst heq
    have hdead : ¬ ∃ st ∈ w.requestStates.get? r.requestId, st.parentReq = some parent := by
      rintro ⟨st', hst', -⟩
      exact hfresh.dead (live_of_get? hst')
    rw [or_iff_right hdead, and_iff_right rfl, ← hparent]
    constructor
    · rintro ⟨st', hst', hparent'⟩
      cases hst'
      exact hparent'
    · exact fun hparent' => ⟨st, rfl, hparent'⟩
  · rename_i hne
    exact (or_iff_left fun hmem => hne hmem.1.symm).symm

theorem Base.added (h : w.Base) (hfresh : w.Fresh r) (hparent : st.parentReq = r.parentReq)
    (hplain : r.parentReq ≠ none → st.streamingInput = false ∧ st.inputChunkQueue = none) :
    (w.added r st).Base := by
  have hchildren : ∀ parent child, child ∈ (w.added r st).childRequests parent ↔
      child ∈ w.childRequests parent ∨ child = r.requestId ∧ r.parentReq = some parent :=
    fun parent child => mem_childRequests_getChildInfo
  have hkeys : ∀ parent, parent ∈ (w.added r st).parents.keys ↔
      parent ∈ w.parents.keys ∨ r.parentReq = some parent :=
    fun parent => keys_getChildInfo
  constructor
  case known =>
    intro id st' parent hget hparent'
    rw [hchildren]
    rw [get?_added] at hget
    split at hget
    · rename_i heq
      cases hget
      exact .inr ⟨heq.symm, hparent.symm.trans hparent'⟩
    · exact .inl (h.known id st' parent hget hparent')
  case unique =>
    intro parent child st' hchild hget
    rw [hchildren] at hchild
    rw [get?_added] at hget
    split at hget
    · rename_i heq
      cases hget
      rw [hparent]
      rcases hchild with hchild | ⟨-, hchild⟩
      · exact hfresh.child parent (heq ▸ hchild)
      · exact hchild
    · rename_i hne
      exact h.unique parent child st' (hchild.resolve_right fun hmem => hne hmem.1.symm) hget
  case nodup =>
    intro parent
    show ((w.getChildInfo r).childRequests parent).Nodup
    rw [childRequests_getChildInfo]
    split
    · exact (h.nodup parent).insert
    · exact h.nodup parent
  case notLive =>
    intro parent hmem hlive
    have hne : parent ≠ r.requestId := by
      rintro rfl
      exact hfresh.notParent hmem
    have hlive' := (Dict.mem_keys_set.1 hlive).resolve_left hne
    rcases (hkeys parent).1 hmem with hmem | hmem
    · exact h.notLive parent hmem hlive'
    · exact (hfresh.parent parent hmem).1 hlive'
  case notParent =>
    intro parent child hchild hmem
    rcases (hchildren parent child).1 hchild with hchild | ⟨rfl, -⟩
    · rcases (hkeys child).1 hmem with hmem | hmem
      · exact h.notParent parent child hchild hmem
      · exact (hfresh.parent child hmem).2.2 parent hchild
    · exact hfresh.notParent hmem
  case registered =>
    intro parent hmem
    rw [hkeys]
    exact (mem_parentRequests_added.1 hmem).imp_left (h.registered parent)
  case listed =>
    intro parent child hchild
    rw [mem_parentRequests_added]
    rcases (liveChild_added hfresh hparent).1 hchild with hchild | ⟨-, hchild⟩
    · exact .inl (h.listed parent child hchild)
    · exact .inr hchild
  case plain =>
    intro id st' parent hget hparent'
    rw [get?_added] at hget
    split at hget
    · cases hget
      refine hplain fun hnone => ?_
      rw [hparent, hnone] at hparent'
      cases hparent'
    · exact h.plain id st' parent hget hparent'

theorem External.added (h : w.External ∅) (hfresh : w.Fresh r)
    (hext : st.externalReqId = r.externalReqId) : (w.added r st).External ∅ := by
  have hold : r.requestId ∉ w.externalReqIds.getD r.externalReqId [] := by
    intro hmem
    obtain ⟨-, st', hst', -⟩ := (h.mem _ _).1 hmem
    exact hfresh.dead (live_of_get? hst')
  have hnodup : (w.externalReqIds.getD r.externalReqId []).Nodup := by
    rw [Dict.getD]
    cases hlist : w.externalReqIds.get? r.externalReqId with
    | none => exact List.nodup_nil
    | some ids => exact (h.nonempty _ ids hlist).2
  constructor
  case nonempty =>
    intro externalReqId ids hids
    have hids' : (w.externalReqIds.set r.externalReqId
        (w.externalReqIds.getD r.externalReqId [] ++ [r.requestId])).get? externalReqId =
          some ids := hids
    rw [Dict.get?_set] at hids'
    split at hids'
    · cases hids'
      refine ⟨List.append_ne_nil_of_right_ne_nil _ (List.cons_ne_nil _ _), ?_⟩
      rw [List.nodup_append_comm]
      exact List.nodup_cons.2 ⟨hold, hnodup⟩
    · exact h.nonempty externalReqId ids hids'
  case mem =>
    intro externalReqId id
    have hmem := h.mem externalReqId id
    rw [and_iff_right (Set.notMem_empty id)] at hmem ⊢
    rw [get?_added]
    show id ∈ (w.externalReqIds.set r.externalReqId
        (w.externalReqIds.getD r.externalReqId [] ++ [r.requestId])).getD externalReqId [] ↔ _
    rw [Dict.getD, Dict.get?_set]
    split
    · rename_i heq
      subst heq
      show id ∈ w.externalReqIds.getD r.externalReqId [] ++ [r.requestId] ↔ _
      rw [List.mem_append, List.mem_singleton]
      split
      · rename_i hid
        subst hid
        exact iff_of_true (.inr rfl) ⟨st, rfl, hext⟩
      · rename_i hid
        rw [or_iff_left (Ne.symm hid), hmem]
    · rename_i hne
      show id ∈ w.externalReqIds.getD externalReqId [] ↔ _
      rw [hmem]
      split
      · rename_i hid
        subst hid
        refine iff_of_false ?_ ?_
        · rintro ⟨st', hst', -⟩
          exact hfresh.dead (live_of_get? hst')
        · rintro ⟨st', hst', hext'⟩
          cases hst'
          exact hne (hext.symm.trans hext')
      · rfl

theorem Inv.added (h : w.Inv) (hfresh : w.Fresh r) (hparent : st.parentReq = r.parentReq)
    (hext : st.externalReqId = r.externalReqId)
    (hplain : r.parentReq ≠ none → st.streamingInput = false ∧ st.inputChunkQueue = none) :
    (w.added r st).Inv where
  base := h.base.added hfresh hparent hplain
  external := h.external.added hfresh hext
  parents parent hmem := by
    rcases mem_parentRequests_added.1 hmem with hmem | hmem
    · obtain ⟨child, hchild⟩ := h.parents parent hmem
      exact ⟨child, (liveChild_added hfresh hparent).2 (.inl hchild)⟩
    · exact ⟨r.requestId, (liveChild_added hfresh hparent).2 (.inr ⟨rfl, hmem⟩)⟩

theorem Inv.addRequest (h : w.Inv) (hallowed : w.AllowedRequest r) :
    ∃ w', w.addRequest r = .ok w' ∧ w'.Inv ∧ w'.aborted = w.aborted := by
  obtain ⟨hstates, hparents, hlists, haborted⟩ := getChildInfo_frame w r
  unfold RequestIndexes.addRequest
  dsimp only
  rw [hstates, hparents, hlists]
  cases hget : w.requestStates.get? r.requestId with
  | none =>
    have hfresh := Fresh.of_allowed hallowed (Dict.get?_eq_none.1 hget)
    have hadded : (w.added r ⟨r.externalReqId, r.parentReq, r.hasQueue, r.resumable,
        if r.resumable then some [] else none⟩).Inv := by
      refine h.added hfresh rfl rfl fun hsome => ?_
      obtain ⟨parent, hparent⟩ := Option.ne_none_iff_exists'.1 hsome
      have hresumable := hfresh.resumable parent hparent
      exact ⟨hresumable, by rw [hresumable]; rfl⟩
    exact ⟨_, rfl, hadded, haborted⟩
  | some st =>
    obtain ⟨hsingle, hchild⟩ := hallowed
    have hparent : r.parentReq = none := by
      refine Option.eq_none_iff_forall_ne_some.2 fun parent hparent => ?_
      exact (hchild parent hparent).1.2.1 (live_of_get? hget)
    have hself : w.getChildInfo r = w := by
      unfold getChildInfo
      rw [hparent]
    have hnone : st.parentReq = none := by
      refine Option.eq_none_iff_forall_ne_some.2 fun parent hparent' => ?_
      obtain ⟨x, hx, -, hmem⟩ := mem_items_of_child (h.base.known _ st parent hget hparent')
      exact (hsingle hparent).2 x hx hmem
    rw [hself]
    exact h.updateStreaming hget hnone r.resumable

end Add

section Run

theorem Inv.processOutput (h : w.Inv) {finished : Bool}
    (hleaves : w.LeavesNoParent (.processOutput id finished)) :
    ∃ w', w.processOutput id finished = .ok w' ∧ w'.Inv ∧ w'.aborted = w.aborted := by
  unfold RequestIndexes.processOutput
  cases hst : w.requestStates.get? id with
  | none => exact ⟨w, rfl, h, rfl⟩
  | some st =>
    cases finished with
    | false => exact ⟨w, rfl, h, rfl⟩
    | true =>
      dsimp only
      split
      · rename_i hstreaming
        have hnone : st.parentReq = none := by
          refine Option.eq_none_iff_forall_ne_some.2 fun parent hparent => ?_
          have hplain := (h.base.plain id st parent hst hparent).1
          rw [hstreaming] at hplain
          cases hplain
        have hself : w.settleChild st id = w := by
          unfold settleChild
          rw [hnone]
        rw [hself]
        split
        · exact ⟨_, rfl, h.setState hst hnone hnone rfl, rfl⟩
        · exact ⟨_, rfl, h.setState hst hnone hnone rfl, rfl⟩
      · refine h.finish hst fun parent hparent => ?_
        refine (hleaves rfl st hst parent hparent).imp_left ?_
        rintro ⟨other, -, hne, hother⟩
        exact ⟨other, hne, hother⟩

theorem Inv.of_progress {ids aborted : List ReqId} (h : w.Inv) (hbase : w'.Base)
    (hext : w'.External ∅) (hprogress : Progress w w' ids aborted)
    (hstays : ∀ parent ∈ w.parentRequests, parent ∉ ids → ∀ child, w.LiveChild parent child →
      ∃ other, other ∉ ids ∧ w.LiveChild parent other) :
    ({ w' with liveBefore := w.requestStates.keys, aborted } : RequestIndexes).Inv where
  base := hbase.congr rfl rfl rfl
  external := hext.congr rfl rfl
  parents parent hparent := by
    obtain ⟨hmem, hnot⟩ := (hprogress.parents parent).1 hparent
    obtain ⟨child, hchild⟩ := h.parents parent hmem
    obtain ⟨other, hother, st, hst, heq⟩ := hstays parent hmem hnot child hchild
    refine ⟨other, st, hprogress.keep other st hst hother fun p hp => ?_, heq⟩
    cases heq.symm.trans hp
    exact hnot

theorem Inv.abortRequests (h : w.Inv) {ids : List ReqId} {internal : Bool}
    (hleaves : w.LeavesNoParent (.abortRequests ids internal)) :
    ∃ w' aborted, w.abortRequests recursionLimit ids internal = .ok (w', aborted) ∧
      ({ w' with liveBefore := w.requestStates.keys, aborted } : RequestIndexes).Inv ∧
      ∀ id ∈ aborted, id ∈ w.requestStates.keys ∧ id ∉ w'.requestStates.keys := by
  cases internal with
  | true =>
    obtain ⟨hnodup, hpair, hothers⟩ := hleaves
    obtain ⟨w', aborted, hok, hbase, hext, hprogress⟩ :=
      abortInternal_spec 998 h.base h.external hnodup hpair
    refine ⟨w', aborted, hok, h.of_progress hbase hext hprogress ?_, hprogress.aborted⟩
    intro parent _ hnot child hchild
    by_cases hmem : child ∈ ids
    · obtain ⟨st, hst, hparent⟩ := hchild
      obtain ⟨other, -, hother⟩ := (hothers child hmem st hst parent hparent).resolve_left hnot
      exact ⟨other, hother⟩
    · exact ⟨child, hmem, hchild⟩
  | false =>
    obtain ⟨w', aborted, gone, hok, hbase, hext, hprogress, hgone⟩ :=
      abortExternal_spec 999 h.base h.external ids
    refine ⟨w', aborted, hok, h.of_progress hbase hext hprogress ?_, hprogress.aborted⟩
    intro parent _ _ child hchild
    by_cases hmem : child ∈ gone
    · obtain ⟨st, hst, hparent⟩ := hchild
      obtain ⟨st', hst', hids⟩ := (hgone child).1 hmem
      cases hst.symm.trans hst'
      obtain ⟨y, hy, hparent', hnot⟩ :=
        hleaves (child, st) (Dict.get?_eq_some.1 hst) hids parent hparent
      have hother := Dict.get?_eq_some.2 hy
      refine ⟨y.1, fun hmem' => ?_, y.2, hother, hparent'⟩
      obtain ⟨st'', hst'', hids'⟩ := (hgone y.1).1 hmem'
      cases hother.symm.trans hst''
      exact hnot hids'
    · exact ⟨child, hmem, hchild⟩

theorem inv_init : init.Inv where
  base := ⟨nofun, nofun, fun _ => List.nodup_nil, nofun, nofun, nofun, nofun, nofun⟩
  external := ⟨nofun, fun _ _ => iff_of_false nofun nofun⟩
  parents := nofun

theorem Inv.step (h : w.Inv) {op : Op} (hallowed : w.Allowed op) (hleaves : w.LeavesNoParent op) :
    ∃ w', w.step op = .ok w' ∧ w'.Inv ∧ w'.Consistent := by
  cases op with
  | addRequest r =>
    obtain ⟨w', hok, hw', haborted⟩ := h.reset.addRequest hallowed
    refine ⟨w', hok, hw', hw'.consistent ?_⟩
    rw [haborted]
    exact nofun
  | processOutput id finished =>
    obtain ⟨w', hok, hw', haborted⟩ := h.reset.processOutput hleaves
    refine ⟨w', hok, hw', hw'.consistent ?_⟩
    rw [haborted]
    exact nofun
  | abortRequests ids internal =>
    obtain ⟨w', aborted, hok, hw', haborted⟩ := h.abortRequests hleaves
    refine ⟨_, ?_, hw', hw'.consistent haborted⟩
    unfold RequestIndexes.step
    dsimp only
    rw [hok]
    rfl

/-- Where no step leaves a parent behind, none fails and the maps agree throughout. -/
theorem consistent_of_leavesNoParent {ops : List Op} (hallowed : Guarded step Allowed init ops)
    (hleaves : Guarded step LeavesNoParent init ops) :
    (∃ w, runSteps step init ops = .ok w) ∧ Throughout step Consistent init ops := by
  have hinit : init.Inv ∧ init.Consistent := ⟨inv_init, inv_init.consistent nofun⟩
  have hstep : ∀ w op, (w.Inv ∧ w.Consistent) → (w.Allowed op ∧ w.LeavesNoParent op) →
      ∃ w', step w op = .ok w' ∧ w'.Inv ∧ w'.Consistent :=
    fun w op hw hop => hw.1.step hop.1 hop.2
  have hstep' : ∀ w op w', (w.Inv ∧ w.Consistent) → (w.Allowed op ∧ w.LeavesNoParent op) →
      step w op = .ok w' → w'.Inv ∧ w'.Consistent := by
    intro w op w' hw hop hok
    obtain ⟨w'', hok', hw''⟩ := hstep w op hw hop
    cases hok.symm.trans hok'
    exact hw''
  have hguard := hallowed.and hleaves
  obtain ⟨w, hrun, -⟩ := run_ok_of_inv hstep hinit hguard
  exact ⟨⟨w, hrun⟩, throughout_of_inv hstep' (fun w hw => hw.2) hinit hguard⟩

def childOf (parent externalReqId requestId : ReqId) : Op :=
  .addRequest ⟨requestId, externalReqId, some parent, true, false⟩

def single (externalReqId requestId : ReqId) : Op :=
  .addRequest ⟨requestId, externalReqId, none, true, false⟩

theorem consistent_of_leavesNoParent_mixed :
    (∃ w, runSteps step init [childOf "a-1" "a" "0_a-1", childOf "a-1" "a" "1_a-1", single "b" "b-1",
        single "b" "b-2", .processOutput "0_a-1" true, .abortRequests ["b"] false,
        .abortRequests ["a-1", "c"] true] = .ok w) ∧
      Throughout step Consistent init [childOf "a-1" "a" "0_a-1", childOf "a-1" "a" "1_a-1",
        single "b" "b-1", single "b" "b-2", .processOutput "0_a-1" true, .abortRequests ["b"] false,
        .abortRequests ["a-1", "c"] true] :=
  consistent_of_leavesNoParent (by decide +kernel) (by decide +kernel)

/-- Aborted by their external id, the children go and their parent stays. -/
theorem not_consistent_abortExternal :
    Guarded step Allowed init [childOf "a-1" "a" "0_a-1", childOf "a-1" "a" "1_a-1",
        .abortRequests ["a"] false] ∧
      ¬ Throughout step Consistent init [childOf "a-1" "a" "0_a-1", childOf "a-1" "a" "1_a-1",
        .abortRequests ["a"] false] ∧
      ∃ w, runSteps step init [childOf "a-1" "a" "0_a-1", childOf "a-1" "a" "1_a-1",
          .abortRequests ["a"] false] = .ok w ∧
        w.requestStates.keys = [] ∧ w.parentRequests = {"a-1"} ∧ w.childRequests "a-1" = [] := by
  obtain ⟨w, hw, hends⟩ := Result.exists_of_holds (x := runSteps step init [childOf "a-1" "a" "0_a-1",
      childOf "a-1" "a" "1_a-1", .abortRequests ["a"] false])
    (p := fun w => w.requestStates.keys = [] ∧ w.parentRequests = {"a-1"} ∧
      w.childRequests "a-1" = []) (by decide +kernel)
  have hends := of_decide_eq_true hends
  refine ⟨by decide +kernel, fun h => ?_, w, hw, hends⟩
  obtain ⟨hdead, hparents, -⟩ := hends
  obtain ⟨id, hid⟩ := ((h.last hw).parents "a-1").1 (by rw [hparents]; decide)
  have hlive := LiveChild.live hid
  rw [hdead] at hlive
  cases hlive

end Run

end RequestIndexes

end Vllm.Frontend
