import Vllm.GrammarBitmaskLaws

namespace Vllm.StructuredOutput.StructuredOutputManager

variable {σ : Type} {m : StructuredOutputManager} {a : Automaton σ} {drafts : Dict ReqId (List Int)}
  {requests requests' : Dict ReqId (StructuredRequest σ)} {id : ReqId} {ids : List ReqId}
  {bitmask bitmask' : List MaskRow} {k k' : Nat}

def standing (m : StructuredOutputManager) (r : StructuredRequest σ) : Bool × Grammar σ :=
  ((m.shouldFillBitmask r).1, r.grammar)

def standings (m : StructuredOutputManager) (requests : Dict ReqId (StructuredRequest σ))
    (id : ReqId) : Option (Bool × Grammar σ) :=
  (requests.get? id).map m.standing

theorem isSome_standings : (m.standings requests id).isSome = (requests.get? id).isSome :=
  Option.isSome_map

def rowsOf (m : StructuredOutputManager) (a : Automaton σ) (drafts : Dict ReqId (List Int))
    (standings : ReqId → Option (Bool × Grammar σ)) (id : ReqId) : List MaskRow :=
  (standings id).elim [] fun (applyBitmask, grammar) =>
    positionRows m a applyBitmask grammar.state (drafts.getD id [])

theorem length_rowsOf {standings : ReqId → Option (Bool × Grammar σ)} {id : ReqId}
    (h : (standings id).isSome) :
    (m.rowsOf a drafts standings id).length = (drafts.getD id []).length + 1 := by
  obtain ⟨s, hs⟩ := Option.isSome_iff_exists.1 h
  rw [rowsOf, hs, Option.elim_some, length_positionRows]

theorem grammar_shouldFillBitmask (r : StructuredRequest σ) :
    (m.shouldFillBitmask r).2.grammar = r.grammar := by
  unfold shouldFillBitmask
  split
  · rfl
  · split <;> rfl

theorem standing_shouldFillBitmask (r : StructuredRequest σ) :
    m.standing { (m.shouldFillBitmask r).2 with grammar := r.grammar } = m.standing r := by
  unfold standing shouldFillBitmask
  cases m.reasoner with
  | none => rfl
  | some isReasoningEnd =>
    dsimp only
    split
    · rfl
    · simp

theorem standings_set {r r' : StructuredRequest σ} (h : requests.get? id = some r)
    (hr : m.standing r' = m.standing r) :
    m.standings (requests.set id r') = m.standings requests := by
  funext id'
  rw [standings, standings, Dict.get?_set]
  split
  · rename_i hid
    rw [← hid, h, Option.map_some, Option.map_some, hr]
  · rfl

theorem requestOf_eq_ok {r : StructuredRequest σ} :
    requestOf requests id = .ok r ↔ requests.get? id = some r := by
  unfold requestOf
  split <;> simp [*]

structure Written (m : StructuredOutputManager) (a : Automaton σ) (drafts : Dict ReqId (List Int))
    (bitmask : List MaskRow) (requests : Dict ReqId (StructuredRequest σ)) (ids : List ReqId)
    (st : List MaskRow × Dict ReqId (StructuredRequest σ) × Nat) : Prop where
  length : st.1.length = bitmask.length
  standings : m.standings st.2.1 = m.standings requests
  rows : st.1.take st.2.2 = ids.flatMap (m.rowsOf a drafts (m.standings requests))
  index : st.2.2 = (ids.flatMap (m.rowsOf a drafts (m.standings requests))).length
  known : ∀ id ∈ ids, (requests.get? id).isSome

theorem get?_eq_of_standings {r' : StructuredRequest σ}
    (h : m.standings requests' = m.standings requests) (hr : requests'.get? id = some r') :
    ∃ r, requests.get? id = some r ∧ m.standing r' = m.standing r := by
  have hid := congrFun h id
  rw [standings, standings, hr, Option.map_some] at hid
  obtain ⟨r, hr, hst⟩ := Option.map_eq_some_iff.1 hid.symm
  exact ⟨r, hr, hst.symm⟩

theorem Written.fillRequest {st st' : List MaskRow × Dict ReqId (StructuredRequest σ) × Nat}
    (h : Written m a drafts bitmask requests ids st)
    (hok : m.fillRequest a drafts st id = .ok st') :
    Written m a drafts bitmask requests (ids ++ [id]) st' := by
  obtain ⟨mask, reqs, k⟩ := st
  unfold StructuredOutputManager.fillRequest at hok
  dsimp only at hok
  rw [Result.bind_eq_ok] at hok
  obtain ⟨r, hr, hok⟩ := hok
  rw [requestOf_eq_ok] at hr
  rw [Result.bind_eq_ok] at hok
  obtain ⟨fill, hfill, hok⟩ := hok
  rw [Result.bind_eq_ok] at hok
  obtain ⟨grammar, hback, hok⟩ := hok
  cases hok
  have hspec := fillDrafts_spec hfill
  rw [hspec.rollback rfl, grammar_shouldFillBitmask] at hback
  cases hback
  obtain ⟨r₀, hr₀, hst⟩ := get?_eq_of_standings h.standings hr
  have hrows : positionRows m a (m.shouldFillBitmask r).1 (m.shouldFillBitmask r).2.grammar.state
      (drafts.getD id []) = m.rowsOf a drafts (m.standings requests) id := by
    have hstand : m.standings requests id = some (m.standing r) := by
      rw [StructuredOutputManager.standings, hr₀, Option.map_some, hst]
    rw [rowsOf, hstand, grammar_shouldFillBitmask]
    rfl
  have hspecRows := hspec.rows
  have hspecIndex := hspec.cumulativeIndex
  dsimp only at hspecRows hspecIndex
  refine ⟨hspec.length.trans h.length, ?_, ?_, ?_, ?_⟩
  · rw [standings_set hr (standing_shouldFillBitmask r)]
    exact h.standings
  · rw [List.flatMap_append, List.flatMap_singleton, ← h.rows, ← hrows]
    exact hspecRows
  · rw [List.flatMap_append, List.flatMap_singleton, List.length_append, ← h.index, ← hrows,
      length_positionRows]
    exact hspecIndex
  · intro id' hid'
    rcases List.mem_append.1 hid' with hid' | hid'
    · exact h.known id' hid'
    · rw [List.mem_singleton.1 hid', hr₀]
      rfl

structure Fillable (m : StructuredOutputManager) (a : Automaton σ) (drafts : Dict ReqId (List Int))
    (requests : Dict ReqId (StructuredRequest σ)) (ids : List ReqId) : Prop where
  accepted : ∀ id ∈ ids, ∃ r, requests.get? id = some r ∧
    ((m.shouldFillBitmask r).1 = true → Acceptable a r.grammar.state (drafts.getD id []))
  drafts : ∀ id ∈ ids, (drafts.getD id []).length ≤ m.maxNumSpecTokens
  numSeqs : ids.length ≤ m.maxNumSeqs

theorem Fillable.known (h : Fillable m a drafts requests ids) (hid : id ∈ ids) :
    (m.standings requests id).isSome := by
  obtain ⟨r, hr, -⟩ := h.accepted id hid
  rw [standings, hr]
  rfl

theorem length_rows_le (standings : ReqId → Option (Bool × Grammar σ))
    (hdrafts : ∀ id ∈ ids, (drafts.getD id []).length ≤ m.maxNumSpecTokens) :
    (ids.flatMap (m.rowsOf a drafts standings)).length ≤ ids.length * (1 + m.maxNumSpecTokens) := by
  induction ids with
  | nil => exact Nat.zero_le _
  | cons id ids ih =>
    have hid := hdrafts id List.mem_cons_self
    have hle : (m.rowsOf a drafts standings id).length ≤ 1 + m.maxNumSpecTokens := by
      unfold rowsOf
      cases standings id with
      | none => exact Nat.zero_le _
      | some s =>
        rw [Option.elim_some, length_positionRows]
        omega
    have hrest := ih fun id' hid' => hdrafts id' (List.mem_cons_of_mem _ hid')
    rw [List.flatMap_cons, List.length_append, List.length_cons, Nat.succ_mul]
    omega

theorem Fillable.room {done todo : List ReqId} (h : Fillable m a drafts requests ids)
    (hids : ids = done ++ id :: todo) :
    (done.flatMap (m.rowsOf a drafts (m.standings requests))).length +
      ((drafts.getD id []).length + 1) ≤ m.maxNumSeqs * (1 + m.maxNumSpecTokens) := by
  have hid : id ∈ ids := hids ▸ List.mem_append_right _ List.mem_cons_self
  have hall := length_rows_le (a := a) (m.standings requests) h.drafts
  have hseqs := Nat.mul_le_mul_right (1 + m.maxNumSpecTokens) h.numSeqs
  rw [hids, List.flatMap_append, List.flatMap_cons, List.length_append, List.length_append,
    length_rowsOf (h.known hid), ← hids] at hall
  omega

theorem Written.fillRequest_ok {st : List MaskRow × Dict ReqId (StructuredRequest σ) × Nat}
    {todo : List ReqId} {all : List ReqId} (hall : Fillable m a drafts requests all)
    (hids : all = ids ++ id :: todo)
    (hlen : bitmask.length = m.maxNumSeqs * (1 + m.maxNumSpecTokens))
    (h : Written m a drafts bitmask requests ids st) : ∃ st', m.fillRequest a drafts st id = .ok st' := by
  obtain ⟨mask, reqs, k⟩ := st
  have hid : id ∈ all := hids ▸ List.mem_append_right _ List.mem_cons_self
  obtain ⟨r₀, hr₀, haccept⟩ := hall.accepted id hid
  obtain ⟨r, hr, hst⟩ := get?_eq_of_standings h.standings.symm hr₀
  rw [standing, standing, Prod.mk.injEq] at hst
  have hroom := hall.room hids
  have hindex := h.index
  dsimp only at hindex
  rw [← hindex, ← hlen, ← h.length] at hroom
  have hdone : ∃ fill : FillState σ, (drafts.getD id [] ++ [-1]).foldlM (m.fillPosition a)
      ⟨mask, (m.shouldFillBitmask r).2.grammar, k, (m.shouldFillBitmask r).1, 0⟩ = .ok fill :=
    fillDrafts_ok hroom fun happly => by
      rw [grammar_shouldFillBitmask, ← hst.2]
      exact haccept (hst.1.trans happly)
  obtain ⟨fill, hfill⟩ := hdone
  unfold StructuredOutputManager.fillRequest
  dsimp only
  rw [requestOf_eq_ok.2 hr, Result.ok_bind, hfill, Result.ok_bind, (fillDrafts_spec hfill).rollback rfl]
  exact ⟨_, rfl⟩

def jobRow (m : StructuredOutputManager) (a : Automaton σ) (job : FillJob σ) : MaskRow :=
  positionRow m a job.applyBitmask job.grammar.state [] 0

theorem fillBitmask_eq (job : FillJob σ) : m.fillBitmask a bitmask job =
    if job.index < bitmask.length then .ok (bitmask.set job.index (m.jobRow a job))
    else .error .indexError := by
  rw [fillBitmask, jobRow, positionRow_zero]

structure Submitted (m : StructuredOutputManager) (a : Automaton σ) (drafts : Dict ReqId (List Int))
    (requests : Dict ReqId (StructuredRequest σ)) (ids : List ReqId)
    (st : (List (List (FillJob σ)) × List (FillJob σ)) × Dict ReqId (StructuredRequest σ) × Nat) :
    Prop where
  standings : m.standings st.2.1 = m.standings requests
  jobs : (st.1.1.flatten ++ st.1.2).map (fun job => (m.jobRow a job, job.index)) =
    (ids.flatMap (m.rowsOf a drafts (m.standings requests))).zipIdx
  index : st.2.2 = (ids.flatMap (m.rowsOf a drafts (m.standings requests))).length
  known : ∀ id ∈ ids, (requests.get? id).isSome

theorem flatten_addJob (st : List (List (FillJob σ)) × List (FillJob σ)) (job : FillJob σ) :
    (m.addJob st job).1.flatten ++ (m.addJob st job).2 = st.1.flatten ++ st.2 ++ [job] := by
  rw [addJob]
  split <;> simp

theorem Submitted.submitRequest
    {st st' : (List (List (FillJob σ)) × List (FillJob σ)) × Dict ReqId (StructuredRequest σ) × Nat}
    (h : Submitted m a drafts requests ids st) (hnil : drafts.getD id [] = [])
    (hok : m.submitRequest st id = .ok st') : Submitted m a drafts requests (ids ++ [id]) st' := by
  obtain ⟨jobs, reqs, k⟩ := st
  unfold StructuredOutputManager.submitRequest at hok
  dsimp only at hok
  rw [Result.bind_eq_ok] at hok
  obtain ⟨r, hr, hok⟩ := hok
  rw [requestOf_eq_ok] at hr
  cases hok
  obtain ⟨r₀, hr₀, hst⟩ := get?_eq_of_standings h.standings hr
  have hstand : m.standings requests id = some (m.standing r) := by
    rw [StructuredOutputManager.standings, hr₀, Option.map_some, hst]
  -- without drafts a request has the row of its next token only
  have hrows : m.rowsOf a drafts (m.standings requests) id =
      [positionRow m a (m.shouldFillBitmask r).1 r.grammar.state [] 0] := by
    rw [rowsOf, hstand, hnil]
    rfl
  have hjobs := h.jobs
  have hindex := h.index
  dsimp only at hjobs hindex
  refine ⟨?_, ?_, ?_, ?_⟩
  · rw [← h.standings]
    refine standings_set hr ?_
    rw [← standing_shouldFillBitmask r, ← grammar_shouldFillBitmask (m := m) r]
  · rw [flatten_addJob, List.map_append, hjobs, List.flatMap_append, List.flatMap_singleton,
      List.zipIdx_append, hrows, ← hindex, Nat.zero_add]
    simp only [List.map_cons, List.map_nil, List.zipIdx_cons, List.zipIdx_nil, jobRow,
      grammar_shouldFillBitmask]
  · rw [List.flatMap_append, List.flatMap_singleton, List.length_append, ← hindex, hrows]
    rfl
  · intro id' hid'
    rcases List.mem_append.1 hid' with hid' | hid'
    · exact h.known id' hid'
    · rw [List.mem_singleton.1 hid', hr₀]
      rfl

theorem Submitted.submitRequest_ok
    {st : (List (List (FillJob σ)) × List (FillJob σ)) × Dict ReqId (StructuredRequest σ) × Nat}
    (h : Submitted m a drafts requests ids st) (hid : (requests.get? id).isSome) :
    ∃ st', m.submitRequest st id = .ok st' := by
  obtain ⟨r₀, hr₀⟩ := Option.isSome_iff_exists.1 hid
  obtain ⟨r, hr, -⟩ := get?_eq_of_standings h.standings.symm hr₀
  unfold StructuredOutputManager.submitRequest
  dsimp only
  rw [requestOf_eq_ok.2 hr]
  exact ⟨_, rfl⟩

theorem fillJobs_spec {rows : List MaskRow} {jobs : List (FillJob σ)}
    (hjobs : (jobs.map fun job => (m.jobRow a job, job.index)).Perm rows.zipIdx)
    (hok : jobs.foldlM (m.fillBitmask a) bitmask = .ok bitmask') :
    bitmask'.length = bitmask.length ∧ bitmask'.take rows.length = rows := by
  have hrow : ∀ job ∈ jobs, rows[job.index]? = some (m.jobRow a job) := fun job hjob =>
    List.mem_zipIdx_iff_getElem?.1 (hjobs.subset (List.mem_map_of_mem hjob))
  obtain ⟨hlen, hset⟩ := Result.foldlM_inv_of_ok (f := m.fillBitmask a) (l := jobs)
    (I := fun done b => b.length = bitmask.length ∧
      ∀ job ∈ done, b[job.index]? = some (m.jobRow a job))
    (by
      rintro done job todo b b' hsplit ⟨hlen, hset⟩ hone
      rw [fillBitmask_eq] at hone
      split at hone
      · rename_i hlt
        cases hone
        refine ⟨by rw [List.length_set, hlen], fun job' hjob' => ?_⟩
        by_cases hsame : job.index = job'.index
        · have hmem : job' ∈ jobs := by
            rw [hsplit]
            rcases List.mem_append.1 hjob' with hdone | hdone
            · exact List.mem_append_left _ hdone
            · rw [List.mem_singleton.1 hdone]
              exact List.mem_append_right _ List.mem_cons_self
          have hjob : job ∈ jobs := hsplit ▸ List.mem_append_right _ List.mem_cons_self
          rw [← hrow job' hmem, ← hsame, List.getElem?_set_self hlt, hrow job hjob]
        · rw [List.getElem?_set_ne hsame]
          refine hset job' ((List.mem_append.1 hjob').resolve_right fun h => hsame ?_)
          rw [List.mem_singleton.1 h]
      · cases hone)
    (show bitmask.length = bitmask.length ∧ _ from ⟨rfl, nofun⟩) hok
  refine ⟨hlen, List.ext_getElem? fun i => ?_⟩
  by_cases hi : i < rows.length
  · have hmem : (rows[i], i) ∈ rows.zipIdx :=
      List.mem_zipIdx_iff_getElem?.2 (List.getElem?_eq_getElem hi)
    obtain ⟨job, hjob, heq⟩ := List.mem_map.1 (hjobs.symm.subset hmem)
    have hindex : job.index = i := congrArg Prod.snd heq
    rw [List.getElem?_take_of_lt hi, ← hindex, hset job hjob, hrow job hjob]
  · rw [List.getElem?_eq_none (by rw [List.length_take]; omega), List.getElem?_eq_none (by omega)]

theorem fillJobs_ok {rows : List MaskRow} {jobs : List (FillJob σ)}
    (hjobs : (jobs.map fun job => (m.jobRow a job, job.index)).Perm rows.zipIdx)
    (hroom : rows.length ≤ bitmask.length) :
    ∃ bitmask', jobs.foldlM (m.fillBitmask a) bitmask = .ok bitmask' := by
  have hlt : ∀ job ∈ jobs, job.index < bitmask.length := fun job hjob => by
    have hrow := List.mem_zipIdx_iff_getElem?.1 (hjobs.subset (List.mem_map_of_mem hjob))
    exact Nat.lt_of_lt_of_le (List.getElem?_eq_some_iff.1 hrow).1 hroom
  obtain ⟨bitmask', hok, -⟩ := Result.foldlM_ok (f := m.fillBitmask a)
    (P := fun b jobs => b.length = bitmask.length ∧ ∀ job ∈ jobs, job.index < bitmask.length)
    (by
      rintro b job jobs ⟨hlen, hlt⟩
      obtain ⟨hjob, hrest⟩ := List.forall_mem_cons.1 hlt
      refine ⟨_, by rw [fillBitmask_eq, if_pos (hlen ▸ hjob)], ?_, hrest⟩
      rw [List.length_set, hlen])
    (show _ ∧ _ from ⟨rfl, hlt⟩)
  exact ⟨bitmask', hok⟩

theorem submitRequests
    {st : (List (List (FillJob σ)) × List (FillJob σ)) × Dict ReqId (StructuredRequest σ) × Nat}
    (hnil : ∀ id ∈ ids, drafts.getD id [] = [])
    (hok : ids.foldlM m.submitRequest (([], []), requests, 0) = .ok st) :
    Submitted m a drafts requests ids st :=
  Result.foldlM_inv_of_ok
    (fun _ id _ _ _ hids h hone => h.submitRequest
      (hnil id (hids ▸ List.mem_append_right _ List.mem_cons_self)) hone)
    ⟨rfl, rfl, rfl, nofun⟩ hok

theorem fillRequests {st : List MaskRow × Dict ReqId (StructuredRequest σ) × Nat}
    (hok : ids.foldlM (m.fillRequest a drafts) (bitmask, requests, 0) = .ok st) :
    Written m a drafts bitmask requests ids st :=
  Result.foldlM_inv_of_ok (fun _ _ _ _ _ _ h hone => h.fillRequest hone)
    ⟨rfl, rfl, rfl, rfl, nofun⟩ hok

def bufferOf (m : StructuredOutputManager) (buffer : Option (List MaskRow)) : List MaskRow :=
  buffer.getD (List.replicate (m.maxNumSeqs * (1 + m.maxNumSpecTokens)) (fullRow m.vocabSize))

theorem flatten_promises (st : List (List (FillJob σ)) × List (FillJob σ)) :
    (if st.2 = [] then st.1 else st.1 ++ [st.2]).flatten = st.1.flatten ++ st.2 := by
  split <;> simp [*]

structure Masked (m : StructuredOutputManager) (a : Automaton σ) (drafts : Dict ReqId (List Int))
    (buffer : Option (List MaskRow)) (requests : Dict ReqId (StructuredRequest σ))
    (ids : List ReqId) (mask buffer' : Option (List MaskRow))
    (requests' : Dict ReqId (StructuredRequest σ)) : Prop where
  mask : mask = if ids = [] then none
    else some (ids.flatMap (m.rowsOf a drafts (m.standings requests)))
  buffer : ∀ b, buffer' = some b → b.length = (m.bufferOf buffer).length
  standings : m.standings requests' = m.standings requests
  known : ∀ id ∈ ids, (requests.get? id).isSome

theorem grammarBitmask_spec {pool : List (List (FillJob σ)) → List (FillJob σ)}
    {buffer mask buffer' : Option (List MaskRow)}
    (hpool : ∀ batches, (pool batches).Perm batches.flatten)
    (hdrafts : ∀ id ∈ ids, (drafts.getD id []).length ≤ m.maxNumSpecTokens)
    (hok : m.grammarBitmask a pool buffer requests ids drafts = .ok (mask, buffer', requests')) :
    Masked m a drafts buffer requests ids mask buffer' requests' := by
  unfold grammarBitmask at hok
  split at hok
  · rename_i hids
    cases hok
    refine ⟨by rw [if_pos hids], ?_, rfl, by rw [hids]; nofun⟩
    rintro b rfl
    rfl
  · rename_i hids
    dsimp only at hok
    split at hok
    · rename_i hpar
      have hnil : ∀ id ∈ ids, drafts.getD id [] = [] := fun id hid =>
        List.eq_nil_of_length_eq_zero (Nat.le_zero.1 (hpar.2 ▸ hdrafts id hid))
      rw [Result.bind_eq_ok] at hok
      obtain ⟨⟨⟨promises, batch⟩, reqs, k⟩, hsubmit, hok⟩ := hok
      rw [Result.bind_eq_ok] at hok
      obtain ⟨b, hfill, hok⟩ := hok
      cases hok
      have h := submitRequests (a := a) hnil hsubmit
      have hperm := (hpool (if batch = [] then promises else promises ++ [batch])).map
        fun job => (m.jobRow a job, job.index)
      rw [flatten_promises (promises, batch), h.jobs] at hperm
      obtain ⟨hlen, hrows⟩ := fillJobs_spec hperm hfill
      have hindex := h.index
      dsimp only at hindex
      refine ⟨by rw [if_neg hids, hindex, hrows], ?_, h.standings, h.known⟩
      rintro b' ⟨⟩
      exact hlen
    · rw [Result.bind_eq_ok] at hok
      obtain ⟨⟨b, reqs, k⟩, hfill, hok⟩ := hok
      cases hok
      have h := fillRequests hfill
      refine ⟨by rw [if_neg hids, ← h.rows], ?_, h.standings, h.known⟩
      rintro b' ⟨⟩
      exact h.length

theorem grammarBitmask_ok {pool : List (List (FillJob σ)) → List (FillJob σ)}
    {buffer : Option (List MaskRow)} (hpool : ∀ batches, (pool batches).Perm batches.flatten)
    (hbuffer : ∀ b, buffer = some b → b.length = m.maxNumSeqs * (1 + m.maxNumSpecTokens))
    (h : Fillable m a drafts requests ids) :
    ∃ out, m.grammarBitmask a pool buffer requests ids drafts = .ok out := by
  have hlen : (m.bufferOf buffer).length = m.maxNumSeqs * (1 + m.maxNumSpecTokens) := by
    cases buffer with
    | none => rw [bufferOf, Option.getD_none, List.length_replicate]
    | some b => exact hbuffer b rfl
  unfold grammarBitmask
  split
  · exact ⟨_, rfl⟩
  · dsimp only
    split
    · rename_i hpar
      have hnil : ∀ id ∈ ids, drafts.getD id [] = [] := fun id hid =>
        List.eq_nil_of_length_eq_zero (Nat.le_zero.1 (hpar.2 ▸ h.drafts id hid))
      obtain ⟨⟨⟨promises, batch⟩, reqs, k⟩, hsubmit, hdone⟩ :=
        Result.foldlM_inv (f := m.submitRequest) (l := ids)
          (I := Submitted m a drafts requests)
          (fun done id todo st hids hst => by
            have hid : id ∈ ids := hids ▸ List.mem_append_right _ List.mem_cons_self
            obtain ⟨st', hone⟩ := hst.submitRequest_ok (isSome_standings.symm.trans (h.known hid))
            exact ⟨st', hone, hst.submitRequest (hnil id hid) hone⟩)
          (show Submitted m a drafts requests [] (([], []), requests, 0) from ⟨rfl, rfl, rfl, nofun⟩)
      have hperm := (hpool (if batch = [] then promises else promises ++ [batch])).map
        fun job => (m.jobRow a job, job.index)
      rw [flatten_promises (promises, batch), hdone.jobs] at hperm
      have hroom := (length_rows_le (a := a) (m.standings requests) h.drafts).trans
        (Nat.mul_le_mul_right (1 + m.maxNumSpecTokens) h.numSeqs)
      obtain ⟨b, hfill⟩ := fillJobs_ok hperm (hlen ▸ hroom)
      rw [hsubmit, Result.ok_bind]
      dsimp only
      rw [show buffer.getD _ = m.bufferOf buffer from rfl, hfill]
      exact ⟨_, rfl⟩
    · obtain ⟨⟨b, reqs, k⟩, hfill, -⟩ := Result.foldlM_inv (f := m.fillRequest a drafts) (l := ids)
        (I := Written m a drafts (m.bufferOf buffer) requests)
        (fun done id todo st hids hst => by
          obtain ⟨st', hone⟩ := hst.fillRequest_ok h hids hlen
          exact ⟨st', hone, hst.fillRequest hone⟩)
        (show Written m a drafts (m.bufferOf buffer) requests [] (m.bufferOf buffer, requests, 0)
          from ⟨rfl, rfl, rfl, rfl, nofun⟩)
      rw [show buffer.getD _ = m.bufferOf buffer from rfl, hfill]
      exact ⟨_, rfl⟩

end Vllm.StructuredOutput.StructuredOutputManager
