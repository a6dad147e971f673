import Vllm.QueueUpdate

namespace Vllm

namespace Ledger

variable {l l' : Ledger} {q : Multiset Ref} {refs : List Ref} {x : RequestStatus}

structure Finished (l : Ledger) (refs : List Ref) (x : RequestStatus) (l' : Ledger) : Prop where
  nextRef : l'.nextRef = l.nextRef
  requestId : l'.requestId = l.requestId
  status : ∀ r, l'.status r = if r ∈ refs then x else l.status r
  running : l'.running = l.running.filter (· ∉ refs)
  requests : ∀ id, l'.requests.get? id = l.requests.get? id ∨
    (l'.requests.get? id = none ∧ ∃ r ∈ refs, l.requestId r = id)

theorem Finished.live_iff (h : Finished l refs x l') (hx : x.isFinished = true) (r : Ref) :
    l'.Live r ↔ l.Live r ∧ r ∉ refs := by
  unfold Live
  rw [h.nextRef, h.status r]
  by_cases hr : r ∈ refs
  · simp [hr, hx]
  · simp [hr]

theorem Finished.ok (h : Finished l refs x l') (hl : l.Ok) (hx : x.isFinished = true)
    (hrefs : ∀ r ∈ refs, l.Live r) : l'.Ok where
  nodup := by
    rw [h.running]
    exact hl.nodup.filter _
  running_iff r := by
    rw [h.running, Multiset.mem_filter, hl.running_iff r, h.nextRef, h.status r]
    by_cases hr : r ∈ refs
    · simp only [hr, not_true_eq_false, and_false, if_true, false_iff, not_and]
      exact fun _ => Scheduler.ne_running_of_finished hx
    · simp [hr]
  registered r hr := by
    obtain ⟨hlive, hnot⟩ := (h.live_iff hx r).mp hr
    have hget := hl.registered r hlive
    rw [h.requestId]
    rcases h.requests (l.requestId r) with heq | ⟨-, y, hy, hid⟩
    · rw [heq, hget]
    · have hget' := hl.registered y (hrefs y hy)
      rw [hid, hget] at hget'
      exact absurd (Option.some.inj hget' ▸ hy) hnot
  known id r hr := by
    rcases h.requests id with heq | ⟨hnone, -⟩
    · rw [h.nextRef, h.requestId]
      exact hl.known id r (heq ▸ hr)
    · rw [hnone] at hr
      cases hr

theorem Finished.exact (h : Finished l refs x l') (hx : x.isFinished = true) (hq : l.Exact q) :
    l'.Exact (q.filter (· ∉ refs)) where
  nodup := hq.nodup.filter _
  mem_iff r := by
    rw [Multiset.mem_filter, hq.mem_iff r, h.live_iff hx r, h.status r]
    by_cases hr : r ∈ refs
    · simp [hr]
    · simp [hr]

end Ledger

namespace Scheduler

variable {c : SchedulerConfig} {env : Outside} {s s' : Scheduler}

theorem finishRequest_eq_ok {status : RequestStatus} {r : Ref}
    (h : finishRequest c env status s r = .ok s') :
    ∃ finished failed delay,
      freeRequest c env { s with
        objs := Function.update s.objs r { s.objs r with status := status }
        finishedRecvingKvReqIds := finished
        failedRecvingKvReqIds := failed } r delay = .ok s' ∧
      ((s.objs r).status ≠ .waitingForRemoteKvs → delay = false) := by
  unfold finishRequest at h
  dsimp only at h
  by_cases hst : (s.objs r).status = .waitingForRemoteKvs
  · simp only [hst, if_true] at h
    exact ⟨_, _, _, h, fun hne => absurd hst hne⟩
  · simp only [hst, if_false] at h
    refine ⟨s.finishedRecvingKvReqIds, s.failedRecvingKvReqIds, _, h, fun _ => ?_⟩
    simp

theorem finishRequest_frame {status : RequestStatus} {r : Ref}
    (h : finishRequest c env status s r = .ok s') :
    s'.objs = Function.update s.objs r { s.objs r with status := status } ∧
      s'.nextRef = s.nextRef ∧ s'.running = s.running ∧ s'.waiting = s.waiting ∧
      s'.skippedWaiting = s.skippedWaiting ∧
      (s'.requests = s.requests ∨ s'.requests = s.requests.erase (s.objs r).requestId) := by
  obtain ⟨finished, failed, delay, h, -⟩ := finishRequest_eq_ok h
  obtain ⟨-, kv, requests, ids, rfl, hreq, -⟩ := freeRequest_eq_ok h
  refine ⟨rfl, rfl, rfl, rfl, rfl, ?_⟩
  simpa using hreq

theorem finishAll_frame {status : RequestStatus} {refs : List Ref}
    (h : refs.foldlM (finishRequest c env status) s = .ok s') :
    (∀ r, s'.objs r = if r ∈ refs then { s.objs r with status := status } else s.objs r) ∧
      s'.nextRef = s.nextRef ∧ s'.running = s.running ∧ s'.waiting = s.waiting ∧
      s'.skippedWaiting = s.skippedWaiting ∧
      ∀ id, s'.requests.get? id = s.requests.get? id ∨
        (s'.requests.get? id = none ∧ ∃ r ∈ refs, (s.objs r).requestId = id) := by
  induction refs generalizing s with
  | nil =>
    cases h
    exact ⟨fun r => rfl, rfl, rfl, rfl, rfl, fun id => .inl rfl⟩
  | cons y refs ih =>
    simp only [List.foldlM_cons, Result.bind_eq_ok] at h
    obtain ⟨s₁, hs₁, h⟩ := h
    obtain ⟨hobjs₁, hnext₁, hrun₁, hw₁, hsk₁, hreq₁⟩ := finishRequest_frame hs₁
    obtain ⟨hobjs, hnext, hrun, hw, hsk, hreq⟩ := ih h
    have hid₁ : ∀ r, (s₁.objs r).requestId = (s.objs r).requestId := by
      intro r
      rw [hobjs₁]
      by_cases hr : r = y
      · rw [hr, Function.update_self]
      · rw [Function.update_of_ne hr]
    refine ⟨fun r => ?_, hnext.trans hnext₁, hrun.trans hrun₁, hw.trans hw₁, hsk.trans hsk₁,
      fun id => ?_⟩
    · rw [hobjs r, hobjs₁]
      by_cases hr : r = y
      · subst hr
        rw [Function.update_self, if_pos List.mem_cons_self]
        split <;> rfl
      · rw [Function.update_of_ne hr]
        simp [hr]
    · rcases hreq id with heq | ⟨hnone, r, hr, hid⟩
      · rw [heq]
        rcases hreq₁ with hsame | herase
        · rw [hsame]
          exact .inl rfl
        · rw [herase, Dict.get?_erase]
          split
          · rename_i hid
            exact .inr ⟨rfl, y, List.mem_cons_self, hid⟩
          · exact .inl rfl
      · exact .inr ⟨hnone, r, List.mem_cons_of_mem y hr, (hid₁ r).symm.trans hid⟩

theorem mem_unfinishedOf {reqIds : List ReqId} {r : Ref} (hl : s.ledger.Ok)
    (h : r ∈ s.unfinishedOf reqIds) : s.ledger.Live r := by
  obtain ⟨hmem, hf⟩ := List.mem_filter.mp h
  obtain ⟨id, -, hget⟩ := List.mem_filterMap.mp hmem
  have hf : (s.objs r).status.isFinished = false := by simpa [Request.isFinished] using hf
  exact hl.live_of_get? hget hf

theorem filter_status_eq {l refs : List Ref} {p : Ref → Bool} (h : ∀ r ∈ l, p r = true) :
    l.filter (· ∉ refs.filter p) = l.filter (· ∉ refs) := by
  apply List.filter_congr
  intro r hr
  simp [h r hr]

theorem finishRequests_books {ids : Option (List ReqId)} {status : RequestStatus}
    (hk : s.ledger.Kept s.queued) (h : finishRequests c env s ids status = .ok s') :
    Ledger.Follows s.ledger s.queued s'.ledger s'.queued := by
  simp only [finishRequests, Result.bind_eq_ok, Result.ensure_eq_ok] at h
  obtain ⟨-, hfin, h⟩ := h
  generalize hvalid : s.unfinishedOf _ = valid at h
  have hlive : ∀ r ∈ valid, s.ledger.Live r := fun r hr =>
    mem_unfinishedOf hk.toOk (hvalid ▸ hr)
  obtain ⟨hobjs, hnext, hrun, hw, hsk, hreq⟩ := finishAll_frame h
  have hfinished : s.ledger.Finished valid status s'.ledger := by
    refine ⟨hnext, ?_, fun r => ?_, ?_, hreq⟩
    · funext r
      show (s'.objs r).requestId = (s.objs r).requestId
      rw [hobjs r]
      split <;> rfl
    · show (s'.objs r).status = _
      rw [hobjs r]
      split <;> rfl
    · show (s'.running : Multiset Ref) = _
      rw [hrun]
      show (removeAll s.running (valid.filter fun r => (s.objs r).status = .running) :
        Multiset Ref) = _
      rw [removeAll_eq_filter (Multiset.coe_nodup.mp hk.nodup), filter_status_eq, ← Multiset.filter_coe]
      · rfl
      · intro r hr
        have hst : (s.objs r).status = .running := ((hk.running_iff r).mp hr).2
        simp [hst]
  have hqueued : s'.queued =
      s.queued.filter (· ∉ valid.filter fun r => (s.objs r).status ≠ .running) := by
    unfold queued
    rw [hw, hsk]
    unfold dequeueFinished
    dsimp only
    split
    · rename_i hnil
      rw [hnil]
      simp
    · rw [Multiset.filter_add, Multiset.filter_coe, Multiset.filter_coe,
        Multiset.coe_eq_coe.mpr (RequestQueue.removeRequests_perm s.waiting _),
        Multiset.coe_eq_coe.mpr (RequestQueue.removeRequests_perm s.skippedWaiting _)]
  refine ⟨⟨hfinished.ok hk.toOk hfin hlive, fun r hr => ?_⟩, fun hq => ?_⟩
  · rw [hqueued] at hr
    rw [hfinished.nextRef]
    exact hk.bound r (Multiset.mem_of_mem_filter hr)
  · have hexact := hfinished.exact hfin hq
    have heq : s.queued.filter (· ∉ valid.filter fun r => (s.objs r).status ≠ .running) =
        s.queued.filter (· ∉ valid) := by
      apply Multiset.filter_congr
      intro r hr
      have hst : (s.objs r).status ≠ .running := ((hq.mem_iff r).mp hr).2
      simp [hst]
    rw [hqueued, heq]
    exact hexact

theorem freeBlocks_books {r : Ref} {reqId : ReqId} (hk : s.ledger.Kept s.queued)
    (hr : s.requests.get? reqId = some r) (h : s.freeBlocks r = .ok s') :
    Ledger.Follows s.ledger s.queued s'.ledger s'.queued := by
  simp only [freeBlocks, Result.bind_eq_ok, Result.ensure_eq_ok, Result.pure_eq_ok] at h
  obtain ⟨-, hfin, rfl⟩ := h
  have hid : (s.objs r).requestId = reqId := (hk.known reqId r hr).2
  refine ⟨⟨hk.toOk.forget fun r' hr' => ?_, hk.bound⟩, fun hq => hq.forget _⟩
  rw [hid] at hr'
  have heq : r' = r := Option.some.inj (hr'.symm.trans hr)
  rw [heq]
  exact hfin

theorem foldlM_books {α : Type} {f : Scheduler → α → Result Scheduler} {l : List α}
    (hf : ∀ s s' a, s.ledger.Kept s.queued → f s a = .ok s' →
      Ledger.Follows s.ledger s.queued s'.ledger s'.queued)
    (hk : s.ledger.Kept s.queued) (h : l.foldlM f s = .ok s') :
    Ledger.Follows s.ledger s.queued s'.ledger s'.queued := by
  induction l generalizing s with
  | nil =>
    cases h
    exact hk.refl
  | cons a l ih =>
    simp only [List.foldlM_cons, Result.bind_eq_ok] at h
    obtain ⟨s₁, hs₁, h⟩ := h
    have hfirst := hf s s₁ a hk hs₁
    have hrest := ih hfirst.1 h
    exact ⟨hrest.1, fun hq => hrest.2 (hfirst.2 hq)⟩

theorem finishTransfers_books {m : ModelRunnerOutput} (hk : s.ledger.Kept s.queued)
    (h : finishTransfers s m = .ok s') :
    Ledger.Follows s.ledger s.queued s'.ledger s'.queued := by
  unfold finishTransfers at h
  split at h
  · cases h
    exact hk.refl
  · simp only [updateFromKvXferFinished, Result.bind_eq_ok] at h
    obtain ⟨s₁, hs₁, h⟩ := h
    have hrecv := foldlM_books (f := finishRecving) (fun s s' id hk h => ?_) hk hs₁
    · have hsend := foldlM_books (f := finishSending) (fun s s' id hk h => ?_) hrecv.1 h
      · exact ⟨hsend.1, fun hq => hsend.2 (hrecv.2 hq)⟩
      · unfold finishSending at h
        split at h
        · cases h
        · rename_i r hr
          exact freeBlocks_books hk hr h
    · unfold finishRecving at h
      split at h
      · cases h
      · rename_i r hr
        split at h
        · cases h
          exact hk.refl
        · exact freeBlocks_books hk hr h

theorem SameButCounters.books (h : SameButCounters s s') :
    s'.ledger = s.ledger ∧ s'.queued = s.queued := by
  obtain ⟨objs, kv, failed, rfl, hobjs⟩ := h
  refine ⟨?_, rfl⟩
  have hfield : ∀ {α : Type} (g : Request → α), (∀ r, g (objs r) = g (s.objs r)) →
      (fun r => g (objs r)) = fun r => g (s.objs r) := fun g hg => funext hg
  unfold ledger
  rw [Ledger.mk.injEq]
  refine ⟨rfl, rfl, hfield Request.requestId fun r => ?_, hfield Request.status fun r => ?_, rfl⟩
  · obtain ⟨a, b, hab⟩ := hobjs r
    rw [hab]
  · obtain ⟨a, b, hab⟩ := hobjs r
    rw [hab]

theorem finishFailed_books {outputs outputs' : List EngineCoreOutput} {failed : List ReqId}
    (hk : s.ledger.Kept s.queued)
    (h : finishFailed c env (outputs, s) failed = .ok (outputs', s')) :
    Ledger.Follows s.ledger s.queued s'.ledger s'.queued := by
  unfold finishFailed at h
  split at h
  · split at h
    · cases h
    · simp only [Result.bind_eq_ok, Result.pure_eq_ok, Prod.mk.injEq] at h
      obtain ⟨s₁, hs₁, -, rfl⟩ := h
      exact finishRequests_books hk hs₁
  · cases h
    exact hk.refl

theorem AllStopInWaiting.of_counters {m : ModelRunnerOutput} {ids : List ReqId}
    (h : AllStopInWaiting c s m ids) (hcount : SameButCounters s s') :
    AllStopInWaiting c s' m ids := by
  obtain ⟨objs, kv, failed, rfl, hobjs⟩ := hcount
  intro id hid r hlt hrid hf hst hstops
  obtain ⟨a, b, hab⟩ := hobjs r
  have hview : (objs r).stopView = (s.objs r).stopView := by
    rw [hab]
    rfl
  have hdiscard : (objs r).discardLatestAsyncTokens = (s.objs r).discardLatestAsyncTokens := by
    rw [hab]
  have hstops := stops_congr hview hdiscard hstops
  dsimp only at hlt hrid hf hst ⊢
  rw [hab] at hrid hf hst ⊢
  exact h id hid r hlt hrid hf hst hstops

theorem updateFromOutput_books {o : SchedulerOutput} {m : ModelRunnerOutput}
    {outputs : List EngineCoreOutput} (hk : s.ledger.Kept s.queued)
    (h : updateFromOutput c env s o m = .ok (outputs, s')) :
    s'.ledger.Kept s'.queued ∧ (s.ledger.Exact s.queued →
      AllStopInWaiting c s m o.numScheduledTokens.keys → s'.ledger.Exact s'.queued) := by
  simp only [updateFromOutput, Result.bind_eq_ok, Prod.exists, Result.pure_eq_ok,
    Prod.mk.injEq] at h
  obtain ⟨failed, s₁, hfailed, u, hu, outputs₁, s₂, hfinish, s₃, htransfer, -, rfl⟩ := h
  have hcount := failedLoads_counters hfailed
  obtain ⟨hledger₁, hqueued₁⟩ := hcount.books
  have hstart : ({ sched := s₁ } : UpdateState).ledger = s.ledger ∧
      ({ sched := s₁ } : UpdateState).queued = s.queued := by
    rw [← hledger₁, ← hqueued₁]
    unfold UpdateState.ledger UpdateState.queued
    simp only [List.not_mem_nil, not_false_eq_true, decide_true, List.filter_true]
    exact ⟨rfl, rfl⟩
  have hk₁ : s₁.ledger.Kept s₁.queued := by
    rw [hledger₁, hqueued₁]
    exact hk
  have hn : s₁.running.Nodup := Multiset.coe_nodup.mp hk₁.nodup
  have hlooping : Looping s₁ (o.numScheduledTokens.items.map Prod.fst) { sched := s₁ } :=
    ⟨by rw [hstart.1, hstart.2]; exact hk, rfl, rfl, fun _ => rfl, fun _ _ => rfl, fun _ => id,
      fun r hr => absurd hr List.not_mem_nil⟩
  obtain ⟨hl, hexact⟩ := updateRequests_books hlooping hn o.numScheduledTokens.nodup hu
  have hdequeue : (dequeueStopped c u).ledger = u.ledger ∧ (dequeueStopped c u).queued = u.queued :=
    ⟨UpdateState.dequeueStopped_ledger (hl.running ▸ hn), UpdateState.dequeueStopped_queued⟩
  have hrest : Ledger.Follows u.ledger u.queued s₃.ledger s₃.queued := by
    have hfin : Ledger.Follows u.ledger u.queued s₂.ledger s₂.queued := by
      rw [← hdequeue.1, ← hdequeue.2]
      refine finishFailed_books ?_ hfinish
      rw [hdequeue.1, hdequeue.2]
      exact hl.kept
    have htrans := finishTransfers_books hfin.1 htransfer
    exact ⟨htrans.1, fun hq => htrans.2 (hfin.2 hq)⟩
  refine ⟨hrest.1, fun hq hcond => hrest.2 (hexact ?_ (hcond.of_counters hcount))⟩
  rw [hstart.1, hstart.2]
  exact hq

theorem preemptAll_books {fuel : Nat} (hk : s.ledger.Kept s.queued)
    (h : preemptAll c fuel s = .ok s') :
    Ledger.Follows s.ledger s.queued s'.ledger s'.queued := by
  induction fuel generalizing s with
  | zero =>
    cases h
    exact hk.refl
  | succ fuel ih =>
    unfold preemptAll at h
    split at h
    · cases h
      exact hk.refl
    · rename_i r hr
      simp only [Result.bind_eq_ok] at h
      obtain ⟨s₁, hs₁, h⟩ := h
      obtain ⟨hledger, hqueued⟩ := Step.preemptRequest_books hs₁
      have hn : s.running.Nodup := Multiset.coe_nodup.mp hk.nodup
      have hkeep := hk.park_running (x := .preempted) (r := r) (List.mem_of_getLast? hr)
        (by decide) rfl
      have hfirst : Ledger.Follows s.ledger s.queued s₁.ledger s₁.queued := by
        refine hkeep.congr ?_ hqueued
        rw [hledger]
        unfold Ledger.park ledger
        dsimp only
        rw [Step.dropLast_eq_erase hn hr]
        rfl
      have hsame := ledger_modify_same (r := r) s₁
        (f := fun q => { q with numOutputPlaceholders := 0, discardLatestAsyncTokens := true }) rfl rfl
      have hrest := ih (s := s₁.modify r fun q =>
        { q with numOutputPlaceholders := 0, discardLatestAsyncTokens := true })
        (by rw [hsame]; exact hfirst.1) h
      rw [hsame] at hrest
      exact ⟨hrest.1, fun hq => hrest.2 (hfirst.2 hq)⟩

theorem resetPrefixCache_books {reset : Bool} {success : Option Bool}
    (hk : s.ledger.Kept s.queued) (h : resetPrefixCache c s reset = .ok (success, s')) :
    Ledger.Follows s.ledger s.queued s'.ledger s'.queued := by
  simp only [resetPrefixCache, Result.bind_eq_ok, Result.pure_eq_ok, Prod.mk.injEq] at h
  obtain ⟨s₁, hs₁, -, rfl⟩ := h
  split at hs₁
  · simp only [Result.bind_eq_ok, Result.pure_eq_ok] at hs₁
    obtain ⟨s₂, hs₂, rfl⟩ := hs₁
    exact (preemptAll_books hk hs₂).congr rfl rfl
  · cases hs₁
    exact hk.refl

theorem init_status (hasher : Option BlockHasher) (p : RequestParams) :
    (p.init hasher).requestId = p.requestId ∧
      ((p.init hasher).status = .waiting ∨ (p.init hasher).status = .waitingForFsm) := by
  unfold RequestParams.init Request.updateBlockHashes
  have hblank : p.blank.status = .waiting ∨ p.blank.status = .waitingForFsm := by
    unfold RequestParams.blank
    dsimp only
    split
    · exact .inr rfl
    · exact .inl rfl
  split
  · exact ⟨rfl, hblank⟩
  · exact ⟨rfl, hblank⟩

theorem session_books {r : Ref} {reqId : ReqId} {update : StreamingUpdate}
    (hk : s.ledger.Kept s.queued) (hget : s.requests.get? reqId = some r)
    (hst : (s.objs r).status = .waitingForStreamingReq)
    (h : updateRequestAsSession c s r update = .ok s') :
    Ledger.Follows s.ledger s.queued s'.ledger s'.queued := by
  obtain ⟨session, hsession, n, rfl⟩ := updateRequestAsSession_eq_ok h
  obtain ⟨hid, hstatus⟩ := updateAsSession_frame hsession
  have hlive : s.ledger.Live r := by
    refine hk.toOk.live_of_get? hget ?_
    show (s.objs r).status.isFinished = false
    rw [hst]
    rfl
  have hnot : s.ledger.status r ≠ .running := by
    show (s.objs r).status ≠ .running
    rw [hst]
    decide
  have hledger : ({ s with
      objs := Function.update s.objs r session
      numWaitingForStreamingInput := n } : Scheduler).ledger = s.ledger.park r .waiting := by
    rw [hk.toOk.park_of_not_running hnot, ← hstatus]
    exact ledger_modify (f := fun _ => session) s hid
  rw [hledger]
  refine ⟨⟨hk.toOk.park hlive (by decide), hk.bound⟩, fun hq => ?_⟩
  exact hq.park_queued ((hq.mem_iff r).mpr ⟨hlive, hnot⟩) (by decide) rfl

theorem register_books {request : Request} (hk : s.ledger.Kept s.queued)
    (hget : s.requests.get? request.requestId = none)
    (hstatus : request.status = .waiting ∨ request.status = .waitingForFsm) :
    Ledger.Follows s.ledger s.queued
      ({ enqueueWaitingRequest c (s.register request).2 s.nextRef with
        requests := (enqueueWaitingRequest c (s.register request).2 s.nextRef).requests.set
          request.requestId s.nextRef } : Scheduler).ledger
      (enqueueWaitingRequest c (s.register request).2 s.nextRef).queued := by
  have hx : request.status ≠ .running ∧ request.status.isFinished = false := by
    rcases hstatus with h | h
    · rw [h]
      exact ⟨by decide, rfl⟩
    · rw [h]
      exact ⟨by decide, rfl⟩
  have hledger : s.ledger.register request.requestId request.status =
      { (s.register request).2.ledger with
        requests := s.requests.set request.requestId s.nextRef } := by
    unfold Ledger.register ledger Scheduler.register
    rw [Ledger.mk.injEq]
    dsimp only
    exact ⟨rfl, rfl, (comp_update Request.requestId s.objs _ _).symm,
      (comp_update Request.status s.objs _ _).symm, rfl⟩
  have hkept : (s.ledger.register request.requestId request.status).Kept (s.nextRef ::ₘ s.queued) := by
    refine ⟨hk.toOk.register hget hx.1, fun r hr => ?_⟩
    rcases Multiset.mem_cons.mp hr with rfl | hr
    · exact Nat.lt_succ_self s.nextRef
    · exact Nat.lt_succ_of_lt (hk.bound r hr)
  have hfollows : Ledger.Follows s.ledger s.queued
      (s.ledger.register request.requestId request.status) (s.nextRef ::ₘ s.queued) :=
    ⟨hkept, fun hq => hq.register hx.1 hx.2⟩
  unfold enqueueWaitingRequest
  split
  · refine hfollows.congr hledger.symm ?_
    unfold queued
    dsimp only
    rw [Multiset.coe_eq_coe.mpr (RequestQueue.addRequest_perm _ _), ← Multiset.cons_coe,
      Multiset.add_cons]
    rfl
  · refine hfollows.congr hledger.symm ?_
    unfold queued
    dsimp only
    rw [Multiset.coe_eq_coe.mpr (RequestQueue.addRequest_perm _ _), ← Multiset.cons_coe,
      Multiset.cons_add]
    rfl

theorem addRequest_books {params : RequestParams} (hk : s.ledger.Kept s.queued)
    (h : addRequest c env s params = .ok s') :
    Ledger.Follows s.ledger s.queued s'.ledger s'.queued := by
  unfold addRequest at h
  dsimp only at h
  split at h
  · rename_i existing hget
    split at h
    · split at h
      · cases h
      · cases h
        exact hk.refl.congr (ledger_modify_same s rfl rfl) rfl
    · rename_i hst
      have hst : (s.objs existing).status = .waitingForStreamingReq := by simpa using hst
      split at h
      · exact session_books hk hget hst h
      · exact finishRequests_books hk h
  · rename_i hget
    cases h
    obtain ⟨hid, hstatus⟩ := init_status c.blockHasher params
    refine register_books hk
      ?_ ?_
    · rw [← hget]
      congr 1
      split <;> rfl
    · split
      · exact hstatus
      · exact hstatus

end Scheduler

end Vllm
