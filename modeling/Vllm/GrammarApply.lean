import Vllm.Lib.Segments
import Vllm.GrammarFill

namespace Vllm.StructuredOutput

open Segments

variable {σ L : Type} {drafts : Dict ReqId (List Int)} {ids reqIds pre post : List ReqId}
  {id : ReqId} {vocabSize : Nat}

/-- The rows of the logits: for each request of the batch one for each draft, and one more. -/
def logitRows (drafts : Dict ReqId (List Int)) (reqIds : List ReqId) : List (ReqId × Nat) :=
  labels (fun id => (drafts.getD id []).length + 1) reqIds

theorem length_logitRows_cons (id : ReqId) (reqIds : List ReqId) :
    (logitRows drafts (id :: reqIds)).length =
      (drafts.getD id []).length + 1 + (logitRows drafts reqIds).length := by
  rw [logitRows, labels_cons, List.length_append, List.length_map, List.length_range]
  rfl

section BatchIndices

variable {batchIndex offset : Nat} {indices : Dict ReqId Nat}

theorem structOutReqBatchIndices_of_notMem (h : id ∉ reqIds ∨ id ∉ ids) :
    (structOutReqBatchIndices drafts ids reqIds batchIndex offset indices).get? id =
      indices.get? id := by
  induction reqIds generalizing batchIndex offset indices with
  | nil => rfl
  | cons x rest ih =>
    have hrest : id ∉ rest ∨ id ∉ ids := h.imp_left fun h hmem => h (List.mem_cons_of_mem _ hmem)
    rw [structOutReqBatchIndices, ih hrest]
    split
    · rename_i hx
      have hne : x ≠ id := by
        rintro rfl
        exact h.elim (fun h => h List.mem_cons_self) fun h => h hx
      rw [Dict.get?_set, if_neg hne]
    · rfl

theorem structOutReqBatchIndices_of_mem (hnodup : reqIds.Nodup)
    (hreqs : reqIds = pre ++ id :: post) (hid : id ∈ ids) :
    (structOutReqBatchIndices drafts ids reqIds batchIndex offset indices).get? id =
      some (batchIndex + offset + (logitRows drafts pre).length) := by
  subst hreqs
  induction pre generalizing batchIndex offset indices with
  | nil =>
    rw [List.nil_append, structOutReqBatchIndices,
      structOutReqBatchIndices_of_notMem (.inl (List.nodup_cons.1 hnodup).1), if_pos hid,
      Dict.get?_set, if_pos rfl]
    rfl
  | cons x pre ih =>
    rw [List.cons_append, structOutReqBatchIndices, ih (List.nodup_cons.1 hnodup).2,
      length_logitRows_cons]
    congr 1
    omega

end BatchIndices

theorem copyRow_ok {mask sorted : List MaskRow} {out : List Nat} {i j : Nat} {row : MaskRow}
    (hrow : mask[j]? = some row) (hi : i < sorted.length) :
    copyRow mask (sorted, out) (i, j) = .ok (sorted.set i row, out ++ [i]) := by
  unfold copyRow
  simp only [hrow, hi, if_true]

theorem copyRows_ok {mask sorted : List MaskRow} (out : List Nat) {i j k : Nat}
    (hi : i + k ≤ sorted.length) (hj : j + k ≤ mask.length) :
    ∃ sorted', (List.range k).foldlM
        (fun sorted x => copyRow mask sorted (i + x, j + x)) (sorted, out) =
          .ok (sorted', out ++ (List.range k).map (i + ·)) ∧
      sorted'.length = sorted.length ∧ (∀ x < k, sorted'[i + x]? = mask[j + x]?) ∧
      ∀ r, r < i ∨ i + k ≤ r → sorted'[r]? = sorted[r]? := by
  induction k with
  | zero =>
    refine ⟨sorted, ?_, rfl, nofun, fun _ _ => rfl⟩
    rw [List.range_zero, List.map_nil, List.append_nil]
    rfl
  | succ k ih =>
    obtain ⟨sorted', hok, hlen, hrows, hframe⟩ := ih (by omega) (by omega)
    have hmask : ∃ row, mask[j + k]? = some row := ⟨_, List.getElem?_eq_getElem (by omega)⟩
    obtain ⟨row, hrow⟩ := hmask
    refine ⟨sorted'.set (i + k) row, ?_, ?_, ?_, ?_⟩
    · rw [List.range_succ, List.foldlM_append, hok, Result.ok_bind, List.foldlM_cons,
        copyRow_ok hrow (by omega), List.map_append, ← List.append_assoc]
      rfl
    · rw [List.length_set, hlen]
    · intro x hx
      by_cases hxk : x = k
      · rw [hxk, List.getElem?_set_self (by omega), hrow]
      · rw [List.getElem?_set_ne (by omega), hrows x (by omega)]
    · intro r hr
      rw [List.getElem?_set_ne (by omega), hframe r (by omega)]

structure Sorted (vocabSize : Nat) (drafts : Dict ReqId (List Int)) (reqIds : List ReqId)
    (rows : ReqId → List MaskRow) (ids : List ReqId) (sorted : List MaskRow × List Nat) : Prop where
  length : sorted.1.length = (logitRows drafts reqIds).length
  row : ∀ (r : Nat) id i, (logitRows drafts reqIds)[r]? = some (id, i) →
    sorted.1[r]? = if id ∈ ids then (rows id)[i]? else some (fullRow vocabSize)
  indices : ∀ (r : Nat) id i, (logitRows drafts reqIds)[r]? = some (id, i) → id ∈ ids → r ∈ sorted.2

theorem Sorted.sortRequest {rows : ReqId → List MaskRow} {all todo : List ReqId}
    {sorted : List MaskRow × List Nat} (hreqs : reqIds.Nodup) (hids : all = ids ++ id :: todo)
    (hrows : ∀ id ∈ all, (rows id).length = (drafts.getD id []).length + 1)
    (h : Sorted vocabSize drafts reqIds rows ids sorted) :
    ∃ sorted', StructuredOutput.sortRequest drafts
        (structOutReqBatchIndices drafts all reqIds 0 0 .empty) (all.flatMap rows)
        (sorted, (ids.flatMap rows).length) id =
          .ok (sorted', ((ids ++ [id]).flatMap rows).length) ∧
      Sorted vocabSize drafts reqIds rows (ids ++ [id]) sorted' := by
  obtain ⟨sorted, out⟩ := sorted
  have hid : id ∈ all := hids ▸ List.mem_append_right _ List.mem_cons_self
  have hnext : ((ids ++ [id]).flatMap rows).length =
      (ids.flatMap rows).length + (1 + (drafts.getD id []).length) := by
    rw [List.flatMap_append, List.flatMap_singleton, List.length_append, hrows id hid, Nat.add_comm 1]
  unfold StructuredOutput.sortRequest
  dsimp only
  rw [hnext]
  by_cases hbatch : id ∈ reqIds
  · obtain ⟨pre, post, hsplit⟩ := List.append_of_mem hbatch
    rw [structOutReqBatchIndices_of_mem hreqs hsplit hid]
    have hroom : (logitRows drafts pre).length + (1 + (drafts.getD id []).length) ≤
        sorted.length := by
      have hlen := h.length
      dsimp only at hlen
      rw [hlen, hsplit, logitRows, logitRows, labels_append, List.length_append, labels_cons,
        List.length_append, List.length_map, List.length_range]
      omega
    have hmask : (ids.flatMap rows).length + (1 + (drafts.getD id []).length) ≤
        (all.flatMap rows).length := by
      rw [hids, List.flatMap_append, List.length_append, List.flatMap_cons, List.length_append,
        hrows id hid]
      omega
    simp only [Nat.zero_add]
    obtain ⟨sorted', hok, hlen, hcopied, hframe⟩ := copyRows_ok out hroom hmask
    rw [hok]
    refine ⟨_, rfl, hlen.trans h.length, ?_, ?_⟩
    · intro r id' i hr
      by_cases hsame : id' = id
      · subst hsame
        have hi : i < (drafts.getD id' []).length + 1 := (mem_labels.1 (List.mem_of_getElem? hr)).2
        rw [if_pos (List.mem_append_right _ List.mem_cons_self),
          eq_offset_of_labels hreqs hsplit hr]
        refine (hcopied i (by omega)).trans ?_
        exact getElem?_flatMap_offset hids (by rw [hrows _ hid]; exact hi)
      · have hmem : id' ∈ ids ++ [id] ↔ id' ∈ ids := by simp [hsame]
        simp only [hmem]
        rw [← h.row r id' i hr]
        refine hframe r ?_
        by_contra hin
        rw [not_or, Nat.not_lt, Nat.not_le] at hin
        -- a position inside the segment carries the label of the request
        have hlabel := getElem?_labels_offset (n := fun id => (drafts.getD id []).length + 1) hsplit
          (show r - (logitRows drafts pre).length < (drafts.getD id []).length + 1 by omega)
        rw [show (labels _ pre).length + (r - (logitRows drafts pre).length) = r from
          Nat.add_sub_cancel' hin.1] at hlabel
        exact hsame (congrArg Prod.fst (Option.some.inj (hr.symm.trans hlabel)))
    · intro r id' i hr hid'
      rcases List.mem_append.1 hid' with hid' | hid'
      · exact List.mem_append_left _ (h.indices r id' i hr hid')
      · rw [List.mem_singleton.1 hid'] at hr
        have hi : i < (drafts.getD id []).length + 1 := (mem_labels.1 (List.mem_of_getElem? hr)).2
        refine List.mem_append_right _ (List.mem_map.2 ⟨i, List.mem_range.2 (by omega), ?_⟩)
        exact (eq_offset_of_labels hreqs hsplit hr).symm
  · rw [structOutReqBatchIndices_of_notMem (.inl hbatch), Dict.get?_empty]
    have hne : ∀ (r : Nat) id' i, (logitRows drafts reqIds)[r]? = some (id', i) →
        (id' ∈ ids ++ [id] ↔ id' ∈ ids) := by
      intro r id' i hr
      have hin : id' ∈ reqIds := (mem_labels.1 (List.mem_of_getElem? hr)).1
      simp only [List.mem_append, List.mem_singleton, or_iff_left_iff_imp]
      rintro rfl
      exact absurd hin hbatch
    refine ⟨_, rfl, h.length, fun r id' i hr => ?_, fun r id' i hr hid' => ?_⟩
    · simp only [hne r id' i hr]
      exact h.row r id' i hr
    · exact h.indices r id' i hr ((hne r id' i hr).1 hid')

theorem applyGrammarBitmask_ok (negInf : L) {rows : ReqId → List MaskRow} {logits : List (List L)}
    (hreqs : reqIds.Nodup) (hrows : ∀ id ∈ ids, (rows id).length = (drafts.getD id []).length + 1)
    (hlogits : logits.length = (logitRows drafts reqIds).length) :
    ∃ out, applyGrammarBitmask negInf vocabSize drafts ids (ids.flatMap rows) reqIds logits =
        .ok out ∧
      out.length = logits.length ∧
      ∀ (r : Nat) id i x, (logitRows drafts reqIds)[r]? = some (id, i) → logits[r]? = some x →
        out[r]? = some
          (if id ∈ ids then maskLogits negInf ((rows id)[i]?.getD (fullRow vocabSize)) x else x) := by
  obtain ⟨⟨⟨sorted, indices⟩, k⟩, hok, hsorted, -⟩ := Result.foldlM_inv
    (f := sortRequest drafts (structOutReqBatchIndices drafts ids reqIds 0 0 .empty)
      (ids.flatMap rows)) (l := ids)
    (I := fun done st => Sorted vocabSize drafts reqIds rows done st.1 ∧
      st.2 = (done.flatMap rows).length)
    (by
      rintro done id todo ⟨sorted, k⟩ hsplit ⟨hsorted, rfl⟩
      obtain ⟨sorted', hok, hsorted'⟩ := hsorted.sortRequest hreqs hsplit hrows
      exact ⟨_, hok, hsorted', rfl⟩)
    (show Sorted vocabSize drafts reqIds rows []
        ((List.replicate logits.length (fullRow vocabSize), []), 0).1 ∧ _ from by
      refine ⟨⟨by rw [List.length_replicate, hlogits], fun r id i hr => ?_, fun _ _ _ _ => nofun⟩,
        rfl⟩
      have hlt := (List.getElem?_eq_some_iff.1 hr).1
      rw [if_neg List.not_mem_nil, List.getElem?_replicate, if_pos (hlogits ▸ hlt)])
  unfold applyGrammarBitmask
  dsimp only
  rw [hok]
  refine ⟨_, rfl, by rw [applyTokenBitmask, List.length_mapIdx], fun r id i x hr hx => ?_⟩
  have hrow := hsorted.row r id i hr
  rw [applyTokenBitmask, List.getElem?_mapIdx, hx, Option.map_some]
  congr 1
  dsimp only at hrow ⊢
  by_cases hid : id ∈ ids
  · rw [if_pos hid] at hrow ⊢
    have hin : r ∈ indices := hsorted.indices r id i hr hid
    have hi : i < (rows id).length := by
      rw [hrows id hid]
      exact (mem_labels.1 (List.mem_of_getElem? hr)).2
    rw [hrow, if_pos, List.getElem?_eq_getElem hi]
    · rfl
    · split
      · rfl
      · simpa using hin
  · rw [if_neg hid] at hrow ⊢
    rw [hrow]
    dsimp only
    rw [maskLogits_fullRow, ite_self]

namespace StructuredOutputManager

variable {m : StructuredOutputManager} {a : Automaton σ}
  {requests requests' : Dict ReqId (StructuredRequest σ)}

/-- The grammar state that constrains a row of the logits, if any. -/
def constraintAt (m : StructuredOutputManager) (a : Automaton σ) (drafts : Dict ReqId (List Int))
    (requests : Dict ReqId (StructuredRequest σ)) (ids : List ReqId) (row : ReqId × Nat) :
    Option σ :=
  if row.1 ∈ ids then
    (requests.get? row.1).bind fun r =>
      if (m.shouldFillBitmask r).1 then
        constraint a r.grammar.state (drafts.getD row.1 []) row.2
      else none
  else none

def constrained (negInf : L) (a : Automaton σ) (logits : List L) : Option σ → List L
  | some s => restrict negInf (a.allowed s) logits
  | none => logits

theorem maskLogits_positionRow (negInf : L) (applyBitmask : Bool) (s : σ) (ds : List Int) (i : Nat)
    {x : List L} (hx : x.length ≤ m.vocabSize) :
    maskLogits negInf (positionRow m a applyBitmask s ds i) x =
      constrained negInf a x (if applyBitmask then constraint a s ds i else none) := by
  unfold positionRow
  cases (if applyBitmask then constraint a s ds i else none) with
  | none => exact maskLogits_fullRow negInf x
  | some s' => exact maskLogits_packRow negInf (a.allowed s') hx

theorem maskLogits_rowsOf (negInf : L) {i : Nat} {x : List L}
    (hknown : ∀ id ∈ ids, (requests.get? id).isSome) (hi : i < (drafts.getD id []).length + 1)
    (hx : x.length ≤ m.vocabSize) :
    (if id ∈ ids then
        maskLogits negInf
          ((m.rowsOf a drafts (m.standings requests) id)[i]?.getD (fullRow m.vocabSize)) x
      else x) =
      constrained negInf a x (m.constraintAt a drafts requests ids (id, i)) := by
  unfold constraintAt
  dsimp only
  split
  · rename_i hid
    obtain ⟨r, hr⟩ := Option.isSome_iff_exists.1 (hknown id hid)
    have hrow : (m.rowsOf a drafts (m.standings requests) id)[i]? =
        some (positionRow m a (m.shouldFillBitmask r).1 r.grammar.state (drafts.getD id []) i) := by
      rw [rowsOf, standings, hr, Option.map_some, Option.elim_some]
      show ((List.range _).map _)[i]? = _
      rw [List.getElem?_map, List.getElem?_range hi]
      rfl
    rw [hr, Option.bind_some, ← maskLogits_positionRow negInf _ _ _ _ hx, hrow, Option.getD_some]
  · rfl

/-- Grammar masks reach the right logits: each row is masked by the tokens its grammar allows at
its position and no other row changes, on either path; and the grammars have not moved. -/
theorem masks_reach_logits (negInf : L) (buffer : Option (List MaskRow))
    (requests : Dict ReqId (StructuredRequest σ))
    {pool : List (List (FillJob σ)) → List (FillJob σ)} {logits : List (List L)}
    (hpool : ∀ batches, (pool batches).Perm batches.flatten)
    (hdrafts : ∀ id ∈ ids, (drafts.getD id []).length ≤ m.maxNumSpecTokens)
    (hreqs : reqIds.Nodup) (hlogits : logits.length = (logitRows drafts reqIds).length)
    (hvocab : ∀ x ∈ logits, x.length ≤ m.vocabSize) :
    (∀ mask buffer' requests',
      m.grammarBitmask a pool buffer requests ids drafts = .ok (mask, buffer', requests') →
      (∃ out, applyGrammarOutput negInf m.vocabSize drafts ids mask reqIds logits = .ok out ∧
        out.length = logits.length ∧
        ∀ (r : Nat) id i x, (logitRows drafts reqIds)[r]? = some (id, i) → logits[r]? = some x →
          out[r]? = some (constrained negInf a x (m.constraintAt a drafts requests ids (id, i)))) ∧
      (∀ id, (requests'.get? id).map (·.grammar) = (requests.get? id).map (·.grammar)) ∧
      ∀ threshold batchSize pool', (∀ batches, (pool' batches).Perm batches.flatten) →
        ∀ mask' buffer'' requests'',
          { m with
            fillBitmaskParallelThreshold := threshold
            fillBitmaskParallelBatchSize := batchSize }.grammarBitmask a pool' buffer requests ids
              drafts = .ok (mask', buffer'', requests'') → mask' = mask) ∧
    (Fillable m a drafts requests ids →
      (∀ b, buffer = some b → b.length = m.maxNumSeqs * (1 + m.maxNumSpecTokens)) →
      ∃ mask buffer' requests',
        m.grammarBitmask a pool buffer requests ids drafts = .ok (mask, buffer', requests') ∧
        ∀ b, buffer' = some b → b.length = m.maxNumSeqs * (1 + m.maxNumSpecTokens)) := by
  constructor
  · intro mask buffer' requests' hok
    have h := grammarBitmask_spec hpool hdrafts hok
    refine ⟨?_, fun id => ?_, ?_⟩
    · have hmask := h.mask
      split at hmask
      · rename_i hnil
        subst hmask hnil
        refine ⟨logits, rfl, rfl, fun r id i x _ hx => ?_⟩
        rw [hx, constraintAt, if_neg List.not_mem_nil]
        rfl
      · subst hmask
        obtain ⟨out, hout, hlen, hrows⟩ := applyGrammarBitmask_ok negInf hreqs
          (fun id hid => length_rowsOf (isSome_standings.trans (h.known id hid))) hlogits
        refine ⟨out, hout, hlen, fun r id i x hr hx => ?_⟩
        rw [hrows r id i x hr hx, maskLogits_rowsOf negInf h.known
          (mem_labels.1 (List.mem_of_getElem? hr)).2 (hvocab x (List.mem_of_getElem? hx))]
    · have hid := congrArg (Option.map Prod.snd) (congrFun h.standings id)
      unfold standings at hid
      rw [Option.map_map, Option.map_map] at hid
      exact hid
    · intro threshold batchSize pool' hpool' mask' buffer'' requests'' hok'
      have h' := grammarBitmask_spec (m := { m with
        fillBitmaskParallelThreshold := threshold
        fillBitmaskParallelBatchSize := batchSize }) hpool' hdrafts hok'
      exact h'.mask.trans h.mask.symm
  · intro hfill hbuffer
    obtain ⟨⟨mask, buffer', requests'⟩, hok⟩ := grammarBitmask_ok hpool hbuffer hfill
    refine ⟨mask, buffer', requests', hok, fun b hb => ?_⟩
    rw [(grammarBitmask_spec hpool hdrafts hok).buffer b hb]
    cases buffer with
    | none => rw [bufferOf, Option.getD_none, List.length_replicate]
    | some b => exact hbuffer b rfl

def ascending (n : Nat) : Automaton Nat where
  accept s token := if token = s then some (s + 1) else none
  terminated s := n ≤ s
  allowed s token := token = s

theorem masks_reach_logits_twoRequests :
    let m : StructuredOutputManager := ⟨some 2, 4, 3, 128, 16, none, false⟩
    let request : StructuredRequest Nat := ⟨some [7], none, ⟨0, []⟩⟩
    let requests : Dict ReqId (StructuredRequest Nat) :=
      ⟨[("a", request), ("b", request)], by decide⟩
    let drafts : Dict ReqId (List Int) := ⟨[("b", [0, -1])], by decide⟩
    let logits : List (List Int) := [[1, 1, 1], [1, 1, 1], [1, 1, 1], [1, 1, 1]]
    ∃ mask buffer' requests' out,
      m.grammarBitmask (ascending 3) List.flatten none requests ["b", "a"] drafts =
        .ok (mask, buffer', requests') ∧
      applyGrammarOutput (-9) m.vocabSize drafts ["b", "a"] mask ["x", "b"] logits = .ok out ∧
      out.length = 4 ∧
      ∀ (r : Nat) id i x, (logitRows drafts ["x", "b"])[r]? = some (id, i) → logits[r]? = some x →
        out[r]? = some (constrained (-9) (ascending 3) x
          (m.constraintAt (ascending 3) drafts requests ["b", "a"] (id, i))) := by
  intro m request requests drafts logits
  have h := masks_reach_logits (m := m) (a := ascending 3) (-9) none requests
    (fun batches => List.Perm.refl batches.flatten)
    (show ∀ id ∈ ["b", "a"], (drafts.getD id []).length ≤ m.maxNumSpecTokens by decide)
    (show ["x", "b"].Nodup by decide)
    (show logits.length = (logitRows drafts ["x", "b"]).length by decide)
    (show ∀ x ∈ logits, x.length ≤ m.vocabSize by decide)
  have hfill : Fillable m (ascending 3) drafts requests ["b", "a"] := by
    refine ⟨fun id hid => ?_, by decide, by decide⟩
    rcases List.mem_pair.1 hid with rfl | rfl
    · exact ⟨request, rfl, fun _ => .inr (.inr ⟨1, rfl, .inl rfl⟩)⟩
    · exact ⟨request, rfl, fun _ => trivial⟩
  obtain ⟨mask, buffer', requests', hok, -⟩ := h.2 hfill nofun
  obtain ⟨⟨out, hout, hlen, hrows⟩, -⟩ := h.1 mask buffer' requests' hok
  exact ⟨mask, buffer', requests', out, hok, hout, hlen, hrows⟩

end StructuredOutputManager

end Vllm.StructuredOutput
