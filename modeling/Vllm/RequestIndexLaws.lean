import Vllm.RequestIndexes

namespace Vllm.Frontend

namespace RequestIndexes

structure Base (w : RequestIndexes) : Prop where
  known : ∀ id st parent, w.requestStates.get? id = some st → st.parentReq = some parent →
    id ∈ w.childRequests parent
  unique : ∀ parent child st, child ∈ w.childRequests parent →
    w.requestStates.get? child = some st → st.parentReq = some parent
  nodup : ∀ parent, (w.childRequests parent).Nodup
  notLive : ∀ parent ∈ w.parents.keys, parent ∉ w.requestStates.keys
  notParent : ∀ parent, ∀ child ∈ w.childRequests parent, child ∉ w.parents.keys
  registered : ∀ parent ∈ w.parentRequests, parent ∈ w.parents.keys
  listed : ∀ parent id, w.LiveChild parent id → parent ∈ w.parentRequests
  plain : ∀ id st parent, w.requestStates.get? id = some st → st.parentReq = some parent →
    st.streamingInput = false ∧ st.inputChunkQueue = none

variable {w w' : RequestIndexes} {id parent : ReqId} {st : IndexedState} {removed : Set ReqId}

theorem live_of_get? (h : w.requestStates.get? id = some st) : id ∈ w.requestStates.keys :=
  Dict.mem_keys.2 ⟨st, h⟩

theorem mem_parents_of_child {child : ReqId} (h : child ∈ w.childRequests parent) :
    parent ∈ w.parents.keys := by
  by_contra hnot
  rw [childRequests, Dict.getD, Dict.get?_eq_none.2 hnot] at h
  cases h

theorem LiveChild.live (h : w.LiveChild parent id) : id ∈ w.requestStates.keys := by
  obtain ⟨st, hst, -⟩ := h
  exact live_of_get? hst

theorem Base.not_parent_of_live (h : w.Base) (hid : id ∈ w.requestStates.keys) :
    id ∉ w.parentRequests := fun hmem => h.notLive id (h.registered id hmem) hid

structure Popped (w w' : RequestIndexes) (id : ReqId) : Prop where
  states : w'.requestStates = w.requestStates.erase id
  children : ∀ parent, w'.childRequests parent = w.childRequests parent ∨
    w'.childRequests parent = (w.childRequests parent).erase id
  keys : ∀ parent, parent ∈ w'.parents.keys ↔ parent ∈ w.parents.keys

theorem Popped.get? (h : Popped w w' id) (id' : ReqId) :
    w'.requestStates.get? id' = if id = id' then none else w.requestStates.get? id' := by
  rw [h.states, Dict.get?_erase]

theorem Popped.sub (h : Popped w w' id) {id' : ReqId} {st : IndexedState}
    (hst : w'.requestStates.get? id' = some st) :
    id' ≠ id ∧ w.requestStates.get? id' = some st := by
  rw [h.get?] at hst
  split at hst
  · cases hst
  · rename_i hne
    exact ⟨Ne.symm hne, hst⟩

theorem Popped.child_sub (h : Popped w w' id) {parent child : ReqId}
    (hchild : child ∈ w'.childRequests parent) : child ∈ w.childRequests parent := by
  rcases h.children parent with heq | heq
  · exact heq ▸ hchild
  · rw [heq] at hchild
    exact List.mem_of_mem_erase hchild

theorem Popped.liveChild (h : Popped w w' id) {parent child : ReqId}
    (hchild : w'.LiveChild parent child) : child ≠ id ∧ w.LiveChild parent child := by
  obtain ⟨st, hst, hparent⟩ := hchild
  obtain ⟨hne, hst⟩ := h.sub hst
  exact ⟨hne, st, hst, hparent⟩

theorem Popped.base (h : Popped w w' id) (hbase : w.Base)
    (hsub : w'.parentRequests ⊆ w.parentRequests)
    (hlisted : ∀ parent child, w'.LiveChild parent child → parent ∈ w'.parentRequests) :
    w'.Base := by
  constructor
  case known =>
    intro id' st parent hst hparent
    obtain ⟨hne, hst⟩ := h.sub hst
    have hmem := hbase.known id' st parent hst hparent
    rcases h.children parent with heq | heq
    · rwa [heq]
    · rw [heq]
      exact (List.mem_erase_of_ne hne).2 hmem
  case unique =>
    intro parent child st hchild hst
    exact hbase.unique parent child st (h.child_sub hchild) (h.sub hst).2
  case nodup =>
    intro parent
    rcases h.children parent with heq | heq
    · exact heq ▸ hbase.nodup parent
    · exact heq ▸ (hbase.nodup parent).erase id
  case notLive =>
    intro parent hparent hlive
    obtain ⟨st, hst⟩ := Dict.mem_keys.1 hlive
    exact hbase.notLive parent ((h.keys parent).1 hparent) (live_of_get? (h.sub hst).2)
  case notParent =>
    intro parent child hchild hmem
    exact hbase.notParent parent child (h.child_sub hchild) ((h.keys child).1 hmem)
  case registered =>
    intro parent hparent
    exact (h.keys parent).2 (hbase.registered parent (hsub hparent))
  case listed => exact hlisted
  case plain =>
    intro id' st parent hst hparent
    exact hbase.plain id' st parent (h.sub hst).2 hparent

theorem childRequests_settleChild (w : RequestIndexes) (st : IndexedState) (id parent : ReqId) :
    (w.settleChild st id).childRequests parent =
      if st.parentReq = some parent then (w.childRequests parent).erase id
      else w.childRequests parent := by
  unfold settleChild
  cases hparent : st.parentReq with
  | none => rfl
  | some p =>
    show (w.parents.set p _).getD parent [] = _
    rw [Dict.getD, Dict.get?_set]
    by_cases hp : p = parent
    · subst hp
      rw [if_pos rfl, if_pos rfl]
      rfl
    · rw [if_neg hp, if_neg (by simpa using hp)]
      rfl

theorem settleChild_frame (w : RequestIndexes) (st : IndexedState) (id : ReqId) :
    (w.settleChild st id).requestStates = w.requestStates ∧
      (w.settleChild st id).parentRequests = w.parentRequests ∧
      (w.settleChild st id).externalReqIds = w.externalReqIds ∧
      (w.settleChild st id).liveBefore = w.liveBefore ∧
      (w.settleChild st id).aborted = w.aborted := by
  unfold settleChild
  cases st.parentReq <;> exact ⟨rfl, rfl, rfl, rfl, rfl⟩

theorem keys_settleChild (hparent : ∀ parent ∈ st.parentReq, parent ∈ w.parents.keys) (id p : ReqId) :
    p ∈ (w.settleChild st id).parents.keys ↔ p ∈ w.parents.keys := by
  unfold settleChild
  cases hst : st.parentReq with
  | none => exact Iff.rfl
  | some parent =>
    show p ∈ (w.parents.set parent _).keys ↔ _
    rw [Dict.mem_keys_set, or_iff_right_iff_imp]
    rintro rfl
    exact hparent _ hst

theorem Base.parent_known (h : w.Base) (hst : w.requestStates.get? id = some st) :
    ∀ parent ∈ st.parentReq, parent ∈ w.parents.keys :=
  fun parent hparent => mem_parents_of_child (h.known id st parent hst hparent)

theorem popState_popped (h : w.Base) (hst : w.requestStates.get? id = some st) :
    Popped w (w.popState id st) id ∧ (w.popState id st).parentRequests = w.parentRequests ∧
      (w.popState id st).externalReqIds = w.externalReqIds := by
  unfold popState
  dsimp only
  split
  · obtain ⟨hstates, hparents, hexternal, -, -⟩ :=
      settleChild_frame { w with requestStates := w.requestStates.erase id } st id
    refine ⟨⟨hstates, fun parent => ?_, fun parent => ?_⟩, hparents, hexternal⟩
    · rw [childRequests_settleChild]
      split
      · exact .inr rfl
      · exact .inl rfl
    · have hknown := h.parent_known hst
      exact keys_settleChild (w := { w with requestStates := w.requestStates.erase id }) hknown id parent
  · exact ⟨⟨rfl, fun _ => .inl rfl, fun _ => Iff.rfl⟩, rfl, rfl⟩

section Lists

theorem External.congr (h : w.External removed) (hstates : w'.requestStates = w.requestStates)
    (hexternal : w'.externalReqIds = w.externalReqIds) : w'.External removed where
  nonempty := hexternal ▸ h.nonempty
  mem := by
    rw [hstates, hexternal]
    exact h.mem

theorem External.popped (h : w.External removed) (hid : id ∈ removed) (hpop : Popped w w' id)
    (hexternal : w'.externalReqIds = w.externalReqIds) : w'.External removed where
  nonempty := hexternal ▸ h.nonempty
  mem externalReqId id' := by
    rw [hexternal, h.mem, hpop.get?]
    refine and_congr_right fun hnot => ?_
    have hne : id ≠ id' := by
      rintro rfl
      exact hnot hid
    rw [if_neg hne]

theorem External.forget {gone : Set ReqId} (h : w.External (removed ∪ gone))
    (hgone : ∀ id ∈ gone, id ∉ w.requestStates.keys) : w.External removed where
  nonempty := h.nonempty
  mem externalReqId id := by
    rw [h.mem, Set.mem_union, not_or, and_assoc]
    refine and_congr_right fun _ => and_iff_right_of_imp ?_
    rintro ⟨st, hst, -⟩ hmem
    exact hgone id hmem (live_of_get? hst)

theorem removeInternal_spec (h : w.External removed) (hst : w.requestStates.get? id = some st)
    (hnot : id ∉ removed) :
    ∃ externalReqIds, (∀ w' : RequestIndexes, w'.externalReqIds = w.externalReqIds →
        w'.removeInternal st.externalReqId id = .ok { w' with externalReqIds }) ∧
      ({ w with externalReqIds } : RequestIndexes).External (insert id removed) := by
  have hmem : id ∈ w.externalReqIds.getD st.externalReqId [] :=
    (h.mem _ id).2 ⟨hnot, st, hst, rfl⟩
  have hnodup : (w.externalReqIds.getD st.externalReqId []).Nodup := by
    rw [Dict.getD]
    cases hlist : w.externalReqIds.get? st.externalReqId with
    | none => exact List.nodup_nil
    | some ids => exact (h.nonempty _ ids hlist).2
  generalize hids : (w.externalReqIds.getD st.externalReqId []).erase id = ids
  have hget : ∀ externalReqId, (if ids.isEmpty then w.externalReqIds.erase st.externalReqId
      else w.externalReqIds.set st.externalReqId ids).getD externalReqId [] =
        if st.externalReqId = externalReqId then ids
        else w.externalReqIds.getD externalReqId [] := by
    intro externalReqId
    rw [Dict.getD, Dict.getD]
    split
    · rename_i hempty
      rw [Dict.get?_erase]
      split
      · exact (List.isEmpty_iff.1 hempty).symm
      · rfl
    · rw [Dict.get?_set]
      split <;> rfl
  refine ⟨if ids.isEmpty then w.externalReqIds.erase st.externalReqId
    else w.externalReqIds.set st.externalReqId ids, fun w' hw' => ?_, ?_, fun externalReqId id' => ?_⟩
  · unfold removeInternal
    dsimp only
    rw [hw', if_pos hmem, hids]
  · intro externalReqId l hl
    dsimp only at hl
    split at hl
    · exact h.nonempty _ l (Dict.get?_of_erase hl)
    · rename_i hne
      rw [Dict.get?_set] at hl
      split at hl
      · cases hl
        exact ⟨mt List.isEmpty_iff.2 hne, hids ▸ hnodup.erase id⟩
      · exact h.nonempty _ l hl
  · show id' ∈ Dict.getD (if _ then _ else _) externalReqId [] ↔ _
    rw [hget, Set.mem_insert_iff, not_or]
    split
    · rename_i hext
      rw [← hids, hnodup.mem_erase_iff, h.mem, hext, and_assoc]
    · rename_i hext
      rw [h.mem, and_assoc]
      refine (and_iff_right_of_imp ?_).symm
      rintro ⟨-, st', hst', hext'⟩ rfl
      cases hst.symm.trans hst'
      exact hext hext'

theorem resolveInternal_spec {requestIds : List ReqId} (h : w.External removed)
    (hnot : ∀ id ∈ requestIds, id ∈ w.requestStates.keys → id ∉ removed)
    (hnodup : (requestIds.filter (· ∈ w.requestStates.keys)).Nodup) (ids : List ReqId) :
    ∃ externalReqIds, requestIds.foldlM (resolveId true) (w, ids) =
        .ok ({ w with externalReqIds }, ids ++ requestIds) ∧
      ({ w with externalReqIds } : RequestIndexes).External
        (removed ∪ {id | id ∈ requestIds ∧ id ∈ w.requestStates.keys}) := by
  induction requestIds generalizing w removed ids with
  | nil =>
    refine ⟨w.externalReqIds, by rw [List.append_nil]; rfl, ?_⟩
    have hempty : {id | id ∈ [] ∧ id ∈ w.requestStates.keys} = (∅ : Set ReqId) := by
      ext id
      simp
    rw [hempty, Set.union_empty]
    exact h
  | cons requestId requestIds ih =>
    obtain ⟨hfirst, hrest⟩ := List.forall_mem_cons.1 hnot
    cases hget : w.requestStates.get? requestId with
    | none =>
      have hdead : requestId ∉ w.requestStates.keys := Dict.get?_eq_none.1 hget
      rw [List.filter_cons_of_neg (by simpa using hdead)] at hnodup
      obtain ⟨externalReqIds, hok, hext⟩ := ih h hrest hnodup (ids ++ [requestId])
      refine ⟨externalReqIds, ?_, ?_⟩
      · rw [List.foldlM_cons, resolveId, if_pos rfl, hget]
        dsimp only
        rw [Result.ok_bind, hok, List.append_assoc]
        rfl
      · convert hext using 1
        ext id
        simp only [Set.mem_union, Set.mem_ofPred_eq, List.mem_cons]
        refine or_congr_right (and_congr_left fun hlive => or_iff_right ?_)
        rintro rfl
        exact hdead hlive
    | some st =>
      have hlive := live_of_get? hget
      rw [List.filter_cons_of_pos (by simpa using hlive), List.nodup_cons] at hnodup
      obtain ⟨hnew, hnodup⟩ := hnodup
      obtain ⟨externalReqIds, hremove, hext⟩ := removeInternal_spec h hget (hfirst hlive)
      have hrest' : ∀ id ∈ requestIds, id ∈ w.requestStates.keys → id ∉ insert requestId removed := by
        intro id hid hlive' hmem
        rcases Set.mem_insert_iff.1 hmem with rfl | hmem
        · exact hnew (List.mem_filter.2 ⟨hid, by simpa using hlive'⟩)
        · exact hrest id hid hlive' hmem
      obtain ⟨externalReqIds', hok, hext'⟩ :=
        ih (w := { w with externalReqIds }) hext hrest' hnodup (ids ++ [requestId])
      refine ⟨externalReqIds', ?_, ?_⟩
      · rw [List.foldlM_cons, resolveId, if_pos rfl, hget]
        dsimp only
        rw [hremove w rfl, Result.ok_bind]
        show List.foldlM (resolveId true) _ requestIds = _
        rw [hok, List.append_assoc]
        rfl
      · convert hext' using 1
        ext id
        simp only [Set.mem_union, Set.mem_ofPred_eq, List.mem_cons, Set.mem_insert_iff]
        constructor
        · rintro (hmem | ⟨rfl | hmem, hlive'⟩)
          · exact .inl (.inr hmem)
          · exact .inl (.inl rfl)
          · exact .inr ⟨hmem, hlive'⟩
        · rintro ((rfl | hmem) | ⟨hmem, hlive'⟩)
          · exact .inr ⟨.inl rfl, hlive⟩
          · exact .inl hmem
          · exact .inr ⟨.inr hmem, hlive'⟩

theorem resolveExternal_spec (h : w.External removed) (requestIds ids : List ReqId) :
    ∃ externalReqIds more, requestIds.foldlM (resolveId false) (w, ids) =
        .ok ({ w with externalReqIds }, ids ++ more) ∧
      ({ w with externalReqIds } : RequestIndexes).External (removed ∪ {id | id ∈ more}) ∧
      more.Nodup ∧ ∀ id, id ∈ more ↔ id ∉ removed ∧
        ∃ st, w.requestStates.get? id = some st ∧ st.externalReqId ∈ requestIds := by
  induction requestIds generalizing w removed ids with
  | nil =>
    refine ⟨w.externalReqIds, [], by rw [List.append_nil]; rfl, ?_, List.nodup_nil, by simp⟩
    have hempty : {id | id ∈ ([] : List ReqId)} = (∅ : Set ReqId) := by
      ext id
      simp
    rw [hempty, Set.union_empty]
    exact h
  | cons requestId requestIds ih =>
    generalize hl : w.externalReqIds.getD requestId [] = l
    have hmem : ∀ id, id ∈ l ↔ id ∉ removed ∧
        ∃ st, w.requestStates.get? id = some st ∧ st.externalReqId = requestId := by
      intro id
      rw [← hl]
      exact h.mem requestId id
    have hnodup : l.Nodup := by
      rw [← hl, Dict.getD]
      cases hlist : w.externalReqIds.get? requestId with
      | none => exact List.nodup_nil
      | some ids => exact (h.nonempty _ ids hlist).2
    have htaken : ({ w with externalReqIds := w.externalReqIds.erase requestId } :
        RequestIndexes).External (removed ∪ {id | id ∈ l}) := by
      constructor
      · intro externalReqId l' hl'
        change (w.externalReqIds.erase requestId).get? externalReqId = some l' at hl'
        exact h.nonempty _ l' (Dict.get?_of_erase hl')
      · intro externalReqId id
        show id ∈ (w.externalReqIds.erase requestId).getD externalReqId [] ↔ _
        rw [Dict.getD, Dict.get?_erase, Set.mem_union, not_or, Set.mem_ofPred_eq, and_assoc]
        split
        · rename_i heq
          refine iff_of_false (by simp) ?_
          rintro ⟨hnot, hnotl, st, hst, hext⟩
          exact hnotl ((hmem id).2 ⟨hnot, st, hst, hext.trans heq.symm⟩)
        · rename_i hne
          refine (h.mem externalReqId id).trans (and_congr_right fun hnot => ?_)
          refine (and_iff_right_of_imp ?_).symm
          rintro ⟨st, hst, hext⟩ hmeml
          obtain ⟨-, st', hst', hext'⟩ := (hmem id).1 hmeml
          cases hst.symm.trans hst'
          exact hne (hext'.symm.trans hext)
    obtain ⟨externalReqIds, more, hok, hext, hmore, hmemmore⟩ := ih htaken (ids ++ l)
    refine ⟨externalReqIds, l ++ more, ?_, ?_, ?_, fun id => ?_⟩
    · rw [List.foldlM_cons, resolveId, if_neg Bool.false_ne_true, hl, Result.ok_bind, hok,
        List.append_assoc]
    · convert hext using 1
      ext id
      simp only [Set.mem_union, Set.mem_ofPred_eq, List.mem_append, or_assoc]
    · refine List.nodup_append.2 ⟨hnodup, hmore, ?_⟩
      rintro id hid _ hid' rfl
      exact ((hmemmore id).1 hid').1 (.inr hid)
    · rw [List.mem_append, hmem, hmemmore, Set.mem_union, not_or, Set.mem_ofPred_eq, hmem]
      constructor
      · rintro (⟨hnot, st, hst, hext⟩ | ⟨⟨hnot, -⟩, st, hst, hmemr⟩)
        · exact ⟨hnot, st, hst, hext ▸ List.mem_cons_self⟩
        · exact ⟨hnot, st, hst, List.mem_cons_of_mem _ hmemr⟩
      · rintro ⟨hnot, st, hst, hmemr⟩
        by_cases hext : st.externalReqId = requestId
        · exact .inl ⟨hnot, st, hst, hext⟩
        · refine .inr ⟨⟨hnot, ?_⟩, st, hst, (List.mem_cons.1 hmemr).resolve_left hext⟩
          rintro ⟨-, st', hst', hext'⟩
          cases hst.symm.trans hst'
          exact hext hext'

end Lists

section Abort

/-- What the second loop has done to `w₀` after these ids: they are gone, and so are the children of
those that were parents; everything else is there. -/
structure Progress (w₀ w : RequestIndexes) (done aborted : List ReqId) : Prop where
  sub : ∀ id st, w.requestStates.get? id = some st → w₀.requestStates.get? id = some st
  aborted : ∀ id ∈ aborted, id ∈ w₀.requestStates.keys ∧ id ∉ w.requestStates.keys
  keep : ∀ id st, w₀.requestStates.get? id = some st → id ∉ done →
    (∀ parent ∈ st.parentReq, parent ∉ done) → w.requestStates.get? id = some st
  gone : ∀ id ∈ done, id ∉ w.requestStates.keys ∧ ∀ child, ¬ w.LiveChild id child
  parents : ∀ parent, parent ∈ w.parentRequests ↔ parent ∈ w₀.parentRequests ∧ parent ∉ done

variable {w₀ : RequestIndexes} {done aborted : List ReqId}

theorem Progress.start (w : RequestIndexes) : Progress w w [] [] where
  sub _ _ h := h
  aborted := nofun
  keep _ _ h _ _ := h
  gone := nofun
  parents parent := by simp

theorem Progress.live_sub (h : Progress w₀ w done aborted) {id : ReqId}
    (hid : id ∈ w.requestStates.keys) : id ∈ w₀.requestStates.keys := by
  obtain ⟨st, hst⟩ := Dict.mem_keys.1 hid
  exact live_of_get? (h.sub id st hst)

theorem Progress.liveChild (h : Progress w₀ w done aborted) {parent child : ReqId}
    (hchild : w.LiveChild parent child) : w₀.LiveChild parent child := by
  obtain ⟨st, hst, hparent⟩ := hchild
  exact ⟨st, h.sub child st hst, hparent⟩

theorem Progress.pop (h : Progress w₀ w done aborted) (hbase : w.Base)
    (hst : w.requestStates.get? id = some st) :
    Progress w₀ (w.popState id st) (done ++ [id]) (aborted ++ [id]) := by
  obtain ⟨hpop, hparents, -⟩ := popState_popped hbase hst
  have hlive := live_of_get? hst
  have hdead : id ∉ (w.popState id st).requestStates.keys := by
    rw [hpop.states, Dict.mem_keys_erase]
    exact fun hmem => hmem.1 rfl
  constructor
  case sub => exact fun id' st' hst' => h.sub id' st' (hpop.sub hst').2
  case aborted =>
    intro id' hid'
    rcases List.mem_append.1 hid' with hid' | hid'
    · refine ⟨(h.aborted id' hid').1, fun hmem => (h.aborted id' hid').2 ?_⟩
      rw [hpop.states, Dict.mem_keys_erase] at hmem
      exact hmem.2
    · cases List.mem_singleton.1 hid'
      exact ⟨h.live_sub hlive, hdead⟩
  case keep =>
    intro id' st' hst' hnot hparent
    simp only [List.mem_append, List.mem_singleton, not_or] at hnot hparent
    rw [hpop.get?, if_neg (Ne.symm hnot.2)]
    exact h.keep id' st' hst' hnot.1 fun parent hmem => (hparent parent hmem).1
  case gone =>
    intro id' hid'
    rcases List.mem_append.1 hid' with hid' | hid'
    · obtain ⟨hnot, hchildren⟩ := h.gone id' hid'
      refine ⟨fun hmem => hnot ?_, fun child hchild => hchildren child (hpop.liveChild hchild).2⟩
      rw [hpop.states, Dict.mem_keys_erase] at hmem
      exact hmem.2
    · cases List.mem_singleton.1 hid'
      refine ⟨hdead, fun child hchild => ?_⟩
      exact hbase.not_parent_of_live hlive (hbase.listed id child (hpop.liveChild hchild).2)
  case parents =>
    intro parent
    rw [hparents, h.parents, List.mem_append, List.mem_singleton, not_or, ← and_assoc]
    refine (and_iff_left_of_imp ?_).symm
    rintro hmem rfl
    exact hbase.not_parent_of_live hlive ((h.parents parent).2 hmem)

theorem Progress.skip (h : Progress w₀ w done aborted) (hbase : w.Base)
    (hdead : id ∉ w.requestStates.keys) (hnot : id ∉ w.parentRequests) :
    Progress w₀ w (done ++ [id]) aborted := by
  constructor
  case sub => exact h.sub
  case aborted => exact h.aborted
  case keep =>
    intro id' st' hst' hnot' hparent
    simp only [List.mem_append, List.mem_singleton, not_or] at hnot' hparent
    exact h.keep id' st' hst' hnot'.1 fun parent hmem => (hparent parent hmem).1
  case gone =>
    intro id' hid'
    rcases List.mem_append.1 hid' with hid' | hid'
    · exact h.gone id' hid'
    · cases List.mem_singleton.1 hid'
      exact ⟨hdead, fun child hchild => hnot (hbase.listed _ child hchild)⟩
  case parents =>
    intro parent
    rw [h.parents, List.mem_append, List.mem_singleton, not_or, ← and_assoc]
    refine (and_iff_left_of_imp ?_).symm
    rintro hmem rfl
    exact hnot ((h.parents parent).2 hmem)

theorem Progress.dropParent {w₁ : RequestIndexes} {children : List ReqId}
    (h : Progress w₀ w done aborted) (hbase : w.Base) (hdead : parent ∉ w.requestStates.keys)
    (hchildren : Progress w w₁ (w.childRequests parent) children) :
    Progress w₀ { w₁ with parentRequests := w₁.parentRequests.erase parent } (done ++ [parent])
      (aborted ++ children) := by
  have hnoparent : ∀ p, p ∈ w.parentRequests → p ∉ w.childRequests parent :=
    fun p hp hmem => hbase.notParent parent p hmem (hbase.registered p hp)
  constructor
  case sub => exact fun id st hst => h.sub id st (hchildren.sub id st hst)
  case aborted =>
    intro id hid
    rcases List.mem_append.1 hid with hid | hid
    · exact ⟨(h.aborted id hid).1, fun hmem => (h.aborted id hid).2 (hchildren.live_sub hmem)⟩
    · exact ⟨h.live_sub (hchildren.aborted id hid).1, (hchildren.aborted id hid).2⟩
  case keep =>
    intro id st hst hnot hparent
    simp only [List.mem_append, List.mem_singleton, not_or] at hnot hparent
    have hkept := h.keep id st hst hnot.1 fun p hp => (hparent p hp).1
    refine hchildren.keep id st hkept ?_ ?_
    · intro hmem
      exact (hparent parent (hbase.unique parent id st hmem hkept)).2 rfl
    · intro p hp
      exact hnoparent p (hbase.listed p id ⟨st, hkept, hp⟩)
  case gone =>
    intro id hid
    rcases List.mem_append.1 hid with hid | hid
    · obtain ⟨hnot, hnochild⟩ := h.gone id hid
      exact ⟨fun hmem => hnot (hchildren.live_sub hmem),
        fun child hchild => hnochild child (hchildren.liveChild hchild)⟩
    · cases List.mem_singleton.1 hid
      refine ⟨fun hmem => hdead (hchildren.live_sub hmem), fun child hchild => ?_⟩
      obtain ⟨st, hst, hparent⟩ := hchildren.liveChild hchild
      have hmem := hbase.known child st _ hst hparent
      exact (hchildren.gone child hmem).1 (LiveChild.live hchild)
  case parents =>
    intro p
    show p ∈ w₁.parentRequests.erase parent ↔ _
    rw [Finset.mem_erase, hchildren.parents, h.parents, List.mem_append, List.mem_singleton, not_or]
    constructor
    · rintro ⟨hne, ⟨hmem, hnot⟩, -⟩
      exact ⟨hmem, hnot, hne⟩
    · rintro ⟨hmem, hnot, hne⟩
      exact ⟨hne, ⟨hmem, hnot⟩, hnoparent p ((h.parents p).2 ⟨hmem, hnot⟩)⟩

theorem Base.congr (h : w.Base) (hstates : w'.requestStates = w.requestStates)
    (hparents : w'.parents = w.parents) (hrequests : w'.parentRequests = w.parentRequests) :
    w'.Base := by
  obtain ⟨states, requests, external, parents, before, aborted⟩ := w
  obtain ⟨states', requests', external', parents', before', aborted'⟩ := w'
  cases hstates
  cases hparents
  cases hrequests
  exact ⟨h.known, h.unique, h.nodup, h.notLive, h.notParent, h.registered, h.listed, h.plain⟩

theorem Base.dropParent (h : w.Base) (hnone : ∀ child, ¬ w.LiveChild parent child) :
    ({ w with parentRequests := w.parentRequests.erase parent } : RequestIndexes).Base where
  known := h.known
  unique := h.unique
  nodup := h.nodup
  notLive := h.notLive
  notParent := h.notParent
  registered p hp := h.registered p (Finset.mem_of_mem_erase hp)
  listed p child hchild := by
    refine Finset.mem_erase.2 ⟨?_, h.listed p child hchild⟩
    rintro rfl
    exact hnone child hchild
  plain := h.plain

def AbortsChildren (removed : Set ReqId)
    (abortChildren : RequestIndexes → List ReqId → Result (RequestIndexes × List ReqId))
    (w : RequestIndexes) (parent : ReqId) : Prop :=
  (∀ child ∈ w.childRequests parent, child ∈ w.requestStates.keys → child ∉ removed) →
    ∃ w' children, abortChildren w (w.childRequests parent) = .ok (w', children) ∧ w'.Base ∧
      w'.External removed ∧ Progress w w' (w.childRequests parent) children

theorem abortLoop_spec {ids rest : List ReqId}
    {abortChildren : RequestIndexes → List ReqId → Result (RequestIndexes × List ReqId)}
    (hrec : ∀ w parent, w.parentRequests ⊆ w₀.parentRequests → parent ∈ ids → w.Base →
      w.External removed → parent ∈ w.parentRequests → AbortsChildren removed abortChildren w parent)
    (hremoved : ∀ id ∈ ids, id ∈ w₀.requestStates.keys → id ∈ removed)
    (hfree : ∀ done parent rest, ids = done ++ parent :: rest →
      ∀ child, w₀.LiveChild parent child → child ∈ removed → child ∈ done)
    (hsplit : ids = done ++ rest) (hbase : w.Base) (hext : w.External removed)
    (hprogress : Progress w₀ w done aborted) :
    ∃ w' aborted', rest.foldlM (abortOne abortChildren) (w, aborted) = .ok (w', aborted') ∧
      w'.Base ∧ w'.External removed ∧ Progress w₀ w' ids aborted' := by
  induction rest generalizing done w aborted with
  | nil =>
    rw [List.append_nil] at hsplit
    exact ⟨w, aborted, rfl, hbase, hext, hsplit ▸ hprogress⟩
  | cons id rest ih =>
    have hsplit' : ids = (done ++ [id]) ++ rest := by
      rw [hsplit, List.append_assoc, List.singleton_append]
    have hmem : id ∈ ids := hsplit ▸ List.mem_append_right _ List.mem_cons_self
    rw [List.foldlM_cons, abortOne]
    cases hst : w.requestStates.get? id with
    | some st =>
      obtain ⟨hpop, hparents, hlists⟩ := popState_popped hbase hst
      have hoff := hremoved id hmem (hprogress.live_sub (live_of_get? hst))
      have hbase' := hpop.base hbase (hparents ▸ Finset.Subset.refl _) fun parent child hchild =>
        hparents ▸ hbase.listed parent child (hpop.liveChild hchild).2
      exact ih hsplit' hbase' (hext.popped hoff hpop hlists) (hprogress.pop hbase hst)
    | none =>
      have hdead : id ∉ w.requestStates.keys := Dict.get?_eq_none.1 hst
      dsimp only
      split
      · rename_i hparent
        have hchildren : AbortsChildren removed abortChildren w id := by
          refine hrec w id (fun p hp => ((hprogress.parents p).1 hp).1) hmem hbase hext hparent
        have hlist : ∀ child ∈ w.childRequests id, child ∈ w.requestStates.keys →
            child ∉ removed := by
          intro child hchild hlive hoff
          obtain ⟨st, hst⟩ := Dict.mem_keys.1 hlive
          have hlivechild : w.LiveChild id child := ⟨st, hst, hbase.unique id child st hchild hst⟩
          have hdone := hfree done id rest hsplit child (hprogress.liveChild hlivechild) hoff
          exact (hprogress.gone child hdone).1 hlive
        have hcall : ∃ w₁ children, w.abortFamily abortChildren id = .ok (w₁, children) ∧
            w₁.Base ∧ w₁.External removed ∧ Progress w w₁ (w.childRequests id) children := by
          unfold abortFamily
          split
          · rename_i hempty
            rw [List.isEmpty_iff.1 hempty]
            exact ⟨w, [], rfl, hbase, hext, .start w⟩
          · exact hchildren hlist
        obtain ⟨w₁, children, hok, hbase₁, hext₁, hprogress₁⟩ := hcall
        rw [hok]
        have hnext := hprogress.dropParent hbase hdead hprogress₁
        refine ih hsplit' (hbase₁.dropParent fun child hchild => ?_) (hext₁.congr rfl rfl) hnext
        exact (hnext.gone id (List.mem_append_right _ List.mem_cons_self)).2 child hchild
      · rename_i hnot
        exact ih hsplit' hbase hext (hprogress.skip hbase hdead hnot)

theorem abortLoop_ok
    (abortChildren : RequestIndexes → List ReqId → Result (RequestIndexes × List ReqId))
    (w₀ : RequestIndexes) (ids : List ReqId)
    (hrec : ∀ w parent, w.parentRequests ⊆ w₀.parentRequests → parent ∈ ids → w.Base →
      w.External removed → parent ∈ w.parentRequests → AbortsChildren removed abortChildren w parent)
    (hremoved : ∀ id ∈ ids, id ∈ w₀.requestStates.keys → id ∈ removed)
    (hfree : ∀ done parent rest, ids = done ++ parent :: rest →
      ∀ child, w₀.LiveChild parent child → child ∈ removed → child ∈ done)
    (hbase : w₀.Base) (hext : w₀.External removed) :
    ∃ w' aborted, ids.foldlM (abortOne abortChildren) (w₀, []) = .ok (w', aborted) ∧
      w'.Base ∧ w'.External removed ∧ Progress w₀ w' ids aborted :=
  abortLoop_spec hrec hremoved hfree (List.nil_append ids).symm hbase hext (.start w₀)

theorem abortInternal_leaf (depth : Nat) (hbase : w.Base) (hext : w.External removed)
    {ids : List ReqId} (hleaf : ∀ id ∈ ids, id ∉ w.parentRequests)
    (hnot : ∀ id ∈ ids, id ∈ w.requestStates.keys → id ∉ removed)
    (hnodup : (ids.filter (· ∈ w.requestStates.keys)).Nodup) :
    ∃ w' aborted, w.abortRequests (depth + 1) ids true = .ok (w', aborted) ∧ w'.Base ∧
      w'.External removed ∧ Progress w w' ids aborted := by
  obtain ⟨externalReqIds, hok, hext'⟩ := resolveInternal_spec hext hnot hnodup []
  rw [List.nil_append] at hok
  have hbase' : ({ w with externalReqIds } : RequestIndexes).Base := hbase.congr rfl rfl rfl
  obtain ⟨w', aborted, hloop, hbase'', hext'', hprogress⟩ := abortLoop_ok
    (fun w children => abortRequests depth w children true) { w with externalReqIds } ids
    (fun w₁ parent hsub hmem _ _ hparent => absurd (hsub hparent) (hleaf parent hmem))
    (fun id hid hlive => .inr ⟨hid, hlive⟩)
    (fun done parent rest hsplit child hchild _ => by
      have hmem : parent ∈ ids := hsplit ▸ List.mem_append_right _ List.mem_cons_self
      exact absurd (hbase'.listed parent child hchild) (hleaf parent hmem))
    hbase' hext'
  refine ⟨w', aborted, ?_, hbase'', hext''.forget fun id hid => (hprogress.gone id hid.1).1,
    ⟨hprogress.sub, hprogress.aborted, hprogress.keep, hprogress.gone, hprogress.parents⟩⟩
  rw [abortRequests, hok, Result.ok_bind]
  exact hloop

theorem abortInternal_spec (depth : Nat) (hbase : w.Base) (hext : w.External ∅) {ids : List ReqId}
    (hnodup : (ids.filter (· ∈ w.requestStates.keys)).Nodup)
    (hpair : ids.Pairwise fun earlier later => ¬ w.LiveChild earlier later) :
    ∃ w' aborted, w.abortRequests (depth + 2) ids true = .ok (w', aborted) ∧ w'.Base ∧
      w'.External ∅ ∧ Progress w w' ids aborted := by
  obtain ⟨externalReqIds, hok, hext'⟩ :=
    resolveInternal_spec hext (fun _ _ _ => Set.notMem_empty _) hnodup []
  rw [List.nil_append] at hok
  have hbase' : ({ w with externalReqIds } : RequestIndexes).Base := hbase.congr rfl rfl rfl
  obtain ⟨w', aborted, hloop, hbase'', hext'', hprogress⟩ := abortLoop_ok
    (fun w children => abortRequests (depth + 1) w children true) { w with externalReqIds } ids
    (fun w₁ parent _ _ hbase₁ hext₁ _ hfree => by
      refine abortInternal_leaf depth hbase₁ hext₁ (fun child hchild hmem => ?_) hfree
        ((hbase₁.nodup parent).filter _)
      exact hbase₁.notParent parent child hchild (hbase₁.registered child hmem))
    (fun id hid hlive => .inr ⟨hid, hlive⟩)
    (fun done parent rest hsplit child hchild hoff => by
      obtain hoff | ⟨hmem, -⟩ := hoff
      · cases hoff
      rw [hsplit] at hmem hpair
      rcases List.mem_append.1 hmem with hdone | hmem
      · exact hdone
      rcases List.mem_cons.1 hmem with rfl | hmem
      · exact absurd (hbase'.listed child child hchild)
          (hbase'.not_parent_of_live (LiveChild.live hchild))
      · have hlater := List.rel_of_pairwise_cons (List.pairwise_append.1 hpair).2.1 hmem
        exact absurd hchild hlater)
    hbase' hext'
  refine ⟨w', aborted, ?_, hbase'', hext''.forget fun id hid => (hprogress.gone id hid.1).1,
    ⟨hprogress.sub, hprogress.aborted, hprogress.keep, hprogress.gone, hprogress.parents⟩⟩
  rw [abortRequests, hok, Result.ok_bind]
  exact hloop

theorem abortExternal_spec (depth : Nat) (hbase : w.Base) (hext : w.External ∅)
    (externalReqIds : List ReqId) :
    ∃ w' aborted ids, w.abortRequests (depth + 1) externalReqIds false = .ok (w', aborted) ∧
      w'.Base ∧ w'.External ∅ ∧ Progress w w' ids aborted ∧
      ∀ id, id ∈ ids ↔ ∃ st, w.requestStates.get? id = some st ∧
        st.externalReqId ∈ externalReqIds := by
  obtain ⟨externalReqIds', ids, hok, hext', -, hids⟩ :=
    resolveExternal_spec hext externalReqIds []
  rw [List.nil_append] at hok
  have hlive : ∀ id ∈ ids, id ∈ w.requestStates.keys := by
    intro id hid
    obtain ⟨-, st, hst, -⟩ := (hids id).1 hid
    exact live_of_get? hst
  have hbase' : ({ w with externalReqIds := externalReqIds' } : RequestIndexes).Base :=
    hbase.congr rfl rfl rfl
  have hleaf : ∀ id ∈ ids, id ∉ w.parentRequests := fun id hid =>
    hbase.not_parent_of_live (hlive id hid)
  obtain ⟨w', aborted, hloop, hbase'', hext'', hprogress⟩ := abortLoop_ok
    (fun w children => abortRequests depth w children true) { w with externalReqIds := externalReqIds' } ids
    (fun w₁ parent hsub hmem _ _ hparent => absurd (hsub hparent) (hleaf parent hmem))
    (fun id hid _ => .inr hid)
    (fun done parent rest hsplit child hchild _ => by
      have hmem : parent ∈ ids := hsplit ▸ List.mem_append_right _ List.mem_cons_self
      exact absurd (hbase'.listed parent child hchild) (hleaf parent hmem))
    hbase' hext'
  refine ⟨w', aborted, ids, ?_, hbase'', hext''.forget fun id hid => (hprogress.gone id hid).1,
    ⟨hprogress.sub, hprogress.aborted, hprogress.keep, hprogress.gone, hprogress.parents⟩,
    fun id => ?_⟩
  · rw [abortRequests, hok, Result.ok_bind]
    exact hloop
  · rw [hids, and_iff_right (Set.notMem_empty id)]

end Abort

end RequestIndexes

end Vllm.Frontend
