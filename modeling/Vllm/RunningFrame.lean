import Vllm.QueueOps

namespace Vllm

structure Request.KeepsRecord (q q' : Request) : Prop where
  lora : q'.loraRequest = q.loraRequest
  cached : q'.numCachedTokens = q.numCachedTokens

theorem Request.KeepsRecord.refl (q : Request) : q.KeepsRecord q := ⟨rfl, rfl⟩

theorem Request.KeepsRecord.trans {q q₁ q' : Request} (h : q.KeepsRecord q₁)
    (h' : q₁.KeepsRecord q') : q.KeepsRecord q' :=
  ⟨h'.lora.trans h.lora, h'.cached.trans h.cached⟩

namespace Scheduler

structure RefsOk (s : Scheduler) : Prop where
  running : ∀ r ∈ s.running, r < s.nextRef
  waiting : ∀ r ∈ s.waiting, r < s.nextRef
  skippedWaiting : ∀ r ∈ s.skippedWaiting, r < s.nextRef
  requests : ∀ id r, s.requests.get? id = some r → r < s.nextRef

structure Carries (s s' : Scheduler) : Prop where
  nextRef : s.nextRef ≤ s'.nextRef
  record : ∀ r < s.nextRef, (s.objs r).KeepsRecord (s'.objs r)
  running : s'.running.Sublist s.running
  refs : s'.RefsOk

variable {c : SchedulerConfig} {env : Outside} {s s' s₁ : Scheduler} {r : Ref}

theorem RefsOk.carries (h : s.RefsOk) : Carries s s :=
  ⟨Nat.le_refl _, fun _ _ => .refl _, List.Sublist.refl _, h⟩

theorem Carries.trans (h : Carries s s₁) (h' : Carries s₁ s') : Carries s s' where
  nextRef := Nat.le_trans h.nextRef h'.nextRef
  record := fun r hr => (h.record r hr).trans (h'.record r (Nat.lt_of_lt_of_le hr h.nextRef))
  running := h'.running.trans h.running
  refs := h'.refs

theorem Carries.lora (h : Carries s s') (r : Ref) (hr : r < s.nextRef) :
    (s'.objs r).loraRequest = (s.objs r).loraRequest :=
  (h.record r hr).lora

theorem RefsOk.carries_of (h : s.RefsOk) (hnext : s'.nextRef = s.nextRef)
    (hrecord : ∀ r, (s.objs r).KeepsRecord (s'.objs r))
    (hrun : s'.running.Sublist s.running)
    (hwait : ∀ r ∈ s'.waiting, r < s.nextRef) (hskip : ∀ r ∈ s'.skippedWaiting, r < s.nextRef)
    (hreq : ∀ id r, s'.requests.get? id = some r → s.requests.get? id = some r) :
    Carries s s' where
  nextRef := Nat.le_of_eq hnext.symm
  record := fun r _ => hrecord r
  running := hrun
  refs := by
    rw [← hnext] at hwait hskip
    refine ⟨fun r hr => ?_, hwait, hskip, fun id r hr => ?_⟩
    · rw [hnext]
      exact h.running r (hrun.subset hr)
    · rw [hnext]
      exact h.requests id r (hreq id r hr)

theorem lora_update {q : Request} (hq : q.loraRequest = (s.objs r).loraRequest) (x : Ref) :
    (Function.update s.objs r q x).loraRequest = (s.objs x).loraRequest := by
  rw [Function.update_apply]
  split
  · rename_i heq
    rw [heq, hq]
  · rfl

theorem record_update {q : Request} (hq : (s.objs r).KeepsRecord q) (x : Ref) :
    (s.objs x).KeepsRecord (Function.update s.objs r q x) := by
  rw [Function.update_apply]
  split
  · rename_i heq
    rw [heq]
    exact hq
  · exact .refl _

theorem OutputStep.record {q q' : Request} {generated kept : List Token} {pooled stopped : Bool}
    (h : OutputStep c q generated pooled kept stopped q') : q.KeepsRecord q' := by
  cases h with
  | appendAsync _ _ _ happend =>
    obtain ⟨status, reason, hashes, rfl, -⟩ := appendUntilStop_cases happend
    exact ⟨rfl, rfl⟩
  | appendSync _ _ happend =>
    obtain ⟨status, reason, hashes, rfl, -⟩ := appendUntilStop_cases happend
    exact ⟨rfl, rfl⟩
  | discard | pool | idle => exact ⟨rfl, rfl⟩

theorem updateAsSession_record {hasher : Option BlockHasher} {q session : Request}
    {update : StreamingUpdate} (h : q.updateAsSession hasher update = some session) :
    q.KeepsRecord session := by
  unfold Request.updateAsSession at h
  rw [Option.map_eq_some_iff] at h
  obtain ⟨promptTokenIds, -, rfl⟩ := h
  unfold Request.updateBlockHashes
  split <;> exact ⟨rfl, rfl⟩

theorem RefsOk.enqueue (h : s.RefsOk) (hr : r < s.nextRef) :
    Carries s (enqueueWaitingRequest c s r) := by
  unfold enqueueWaitingRequest
  have hadd : ∀ q : List Ref, (∀ x ∈ q, x < s.nextRef) →
      ∀ x ∈ RequestQueue.addRequest c.policy s.lt q r, x < s.nextRef := by
    intro q hq x hx
    rcases List.mem_cons.mp ((RequestQueue.addRequest_perm q r).mem_iff.mp hx) with rfl | hx
    · exact hr
    · exact hq x hx
  split
  · exact h.carries_of rfl (fun _ => .refl _) (List.Sublist.refl _) h.waiting (hadd _ h.skippedWaiting)
      fun _ _ => id
  · exact h.carries_of rfl (fun _ => .refl _) (List.Sublist.refl _) (hadd _ h.waiting) h.skippedWaiting
      fun _ _ => id

theorem RefsOk.carries_objs (h : s.RefsOk) {objs : Ref → Request} {kv : KVCacheManager}
    {encoder : EncoderCacheManager} {n : Int} {finished failed done : List ReqId}
    (hrecord : ∀ r, (s.objs r).KeepsRecord (objs r)) :
    Carries s { s with
      objs := objs
      kvCacheManager := kv
      encoderCacheManager := encoder
      numWaitingForStreamingInput := n
      finishedReqIds := done
      finishedRecvingKvReqIds := finished
      failedRecvingKvReqIds := failed } :=
  h.carries_of rfl hrecord (List.Sublist.refl _) h.waiting h.skippedWaiting fun _ _ => id

theorem freeRequest_carries (h : s.RefsOk) {delay : Bool}
    (hok : freeRequest c env s r delay = .ok s') : Carries s s' := by
  obtain ⟨-, kv, requests, ids, rfl, hreq, -⟩ := freeRequest_eq_ok hok
  refine h.carries_of rfl (fun _ => .refl _) (List.Sublist.refl _) h.waiting h.skippedWaiting
    fun id x hx => ?_
  rcases hreq with rfl | rfl
  · exact hx
  · exact Dict.get?_of_erase hx

theorem Settled.carries (h : s.RefsOk) (hr : r < s.nextRef) (hs : Settled c env s r s') :
    Carries s s' := by
  obtain ⟨finished, s₁, hstop, hcase⟩ := hs
  have hfirst : Carries s s₁ := by
    rcases handleStoppedRequest_cases hstop with ⟨-, rfl | ⟨queue, rfl⟩⟩ |
      ⟨-, -, update, queue, session, -, hsession, n, rfl⟩ | ⟨-, -, -, n, rfl⟩
    · exact h.carries
    · exact h.carries_objs (record_update ⟨rfl, rfl⟩)
    · have hrecord : (s.objs r).KeepsRecord session :=
        ⟨(updateAsSession_record hsession).lora, (updateAsSession_record hsession).cached⟩
      have hone : Carries s { s with
          objs := Function.update s.objs r session, numWaitingForStreamingInput := n } :=
        h.carries_objs (record_update hrecord)
      exact hone.trans (hone.refs.enqueue hr)
    · have hone : Carries s { s.modify r (fun q => { q with status := .waitingForStreamingReq }) with
          numWaitingForStreamingInput := n } := h.carries_objs (record_update ⟨rfl, rfl⟩)
      exact hone.trans (hone.refs.enqueue hr)
  rcases hcase with ⟨-, hfree⟩ | ⟨-, rfl⟩
  · exact hfirst.trans (freeRequest_carries hfirst.refs hfree)
  · exact hfirst

theorem SameButCounters.carries (h : s.RefsOk) (hc : SameButCounters s s') : Carries s s' := by
  obtain ⟨objs, kv, failed, rfl, hobjs⟩ := hc
  refine h.carries_objs fun r => ?_
  obtain ⟨a, b, hab⟩ := hobjs r
  rw [hab]
  exact ⟨rfl, rfl⟩

section Update

variable {o : SchedulerOutput} {m : ModelRunnerOutput} {u u' : UpdateState} {reqId : ReqId}

theorem updateRequest_carries (h : u.sched.RefsOk) (hr : r < u.sched.nextRef)
    (hok : updateRequest c env o m u reqId r = .ok u') : Carries u.sched u'.sched := by
  obtain ⟨kept, stopped, q, kv, hstep, -, -, hcase⟩ := updateRequest_eq_ok hok
  have hrecord : (u.sched.objs r).KeepsRecord q := by
    obtain ⟨computed, placeholders, hframe⟩ := afterDrafts_frame o m reqId (u.sched.objs r)
    rw [hframe] at hstep
    exact ⟨(OutputStep.record hstep).lora, (OutputStep.record hstep).cached⟩
  have hone : Carries u.sched { u.sched with
      objs := Function.update u.sched.objs r q, kvCacheManager := kv } :=
    h.carries_objs (record_update hrecord)
  rcases hcase with ⟨-, hsched, -⟩ | ⟨-, hsettled, -⟩
  · rw [hsched]
    exact hone
  · exact hone.trans (Settled.carries hone.refs hr hsettled)

theorem updateRequests_carries {failed : List ReqId} {items : List (ReqId × Int)}
    (h : u.sched.RefsOk) (hok : updateRequests c env o m failed items u = .ok u') :
    Carries u.sched u'.sched := by
  induction items generalizing u with
  | nil =>
    cases hok
    exact h.carries
  | cons item items ih =>
    obtain ⟨reqId, n⟩ := item
    simp only [updateRequests, Result.bind_eq_ok] at hok
    obtain ⟨-, -, hok⟩ := hok
    split at hok
    · exact ih h hok
    · split at hok
      · exact ih h hok
      · rename_i r hr
        split at hok
        · exact ih h hok
        · rw [Result.bind_eq_ok] at hok
          obtain ⟨u₁, hone, hok⟩ := hok
          have hcarries := updateRequest_carries h (h.requests reqId r hr) hone
          exact hcarries.trans (ih hcarries.refs hok)

end Update

theorem removeAll_sublist (l items : List Ref) : (removeAll l items).Sublist l := by
  unfold removeAll
  split
  · exact List.Sublist.refl _
  · exact List.erase_sublist
  · exact List.filter_sublist

theorem dequeueStopped_carries {u : UpdateState} (h : u.sched.RefsOk) :
    Carries u.sched (dequeueStopped c u) := by
  refine h.carries_of rfl (fun _ => .refl _) (removeAll_sublist _ _) (fun r hr => ?_) h.skippedWaiting
    fun _ _ => id
  simp only [dequeueStopped] at hr
  split at hr
  · exact h.waiting r hr
  · exact h.waiting r (RequestQueue.mem_removeRequests.mp hr).1

theorem dequeueFinished_carries (h : s.RefsOk) (valid : List Ref) :
    Carries s (dequeueFinished c s valid) := by
  refine h.carries_of rfl (fun _ => .refl _) (removeAll_sublist _ _) (fun r hr => ?_) (fun r hr => ?_)
    fun _ _ => id
  · simp only [dequeueFinished] at hr
    split at hr
    · exact h.waiting r hr
    · exact h.waiting r (RequestQueue.mem_removeRequests.mp hr).1
  · simp only [dequeueFinished] at hr
    split at hr
    · exact h.skippedWaiting r hr
    · exact h.skippedWaiting r (RequestQueue.mem_removeRequests.mp hr).1

theorem finishRequests_carries {ids : Option (List ReqId)} {status : RequestStatus} (h : s.RefsOk)
    (hok : finishRequests c env s ids status = .ok s') : Carries s s' := by
  simp only [finishRequests, Result.bind_eq_ok] at hok
  obtain ⟨-, -, hok⟩ := hok
  generalize s.unfinishedOf _ = valid at hok
  have hfirst := dequeueFinished_carries (c := c) h valid
  obtain ⟨hobjs, hnext, hrun, hwait, hskip, hreq⟩ := finishAll_frame hok
  refine hfirst.trans (hfirst.refs.carries_of hnext (fun r => ?_) (by rw [hrun]) (by
    rw [hwait]
    exact hfirst.refs.waiting) (by
    rw [hskip]
    exact hfirst.refs.skippedWaiting) fun id r hr => ?_)
  · rw [hobjs r]
    split <;> exact ⟨rfl, rfl⟩
  · rcases hreq id with heq | ⟨hnone, -⟩
    · exact heq.symm.trans hr
    · rw [hnone] at hr
      cases hr

theorem freeBlocks_carries (h : s.RefsOk) (hok : s.freeBlocks r = .ok s') : Carries s s' := by
  simp only [freeBlocks, Result.bind_eq_ok, Result.pure_eq_ok] at hok
  obtain ⟨-, -, rfl⟩ := hok
  exact h.carries_of rfl (fun _ => .refl _) (List.Sublist.refl _) h.waiting h.skippedWaiting
    fun _ _ => Dict.get?_of_erase

theorem foldlM_carries {α : Type} {f : Scheduler → α → Result Scheduler} {l : List α}
    (hf : ∀ s s' a, s.RefsOk → f s a = .ok s' → Carries s s') (h : s.RefsOk)
    (hok : l.foldlM f s = .ok s') : Carries s s' := by
  induction l generalizing s with
  | nil =>
    cases hok
    exact h.carries
  | cons a l ih =>
    rw [List.foldlM_cons, Result.bind_eq_ok] at hok
    obtain ⟨s₁, hs₁, hok⟩ := hok
    have hone := hf s s₁ a h hs₁
    exact hone.trans (ih hone.refs hok)

theorem finishTransfers_carries {m : ModelRunnerOutput} (h : s.RefsOk)
    (hok : finishTransfers s m = .ok s') : Carries s s' := by
  unfold finishTransfers at hok
  split at hok
  · cases hok
    exact h.carries
  · simp only [updateFromKvXferFinished, Result.bind_eq_ok] at hok
    obtain ⟨s₁, hrecv, hsend⟩ := hok
    have hone : Carries s s₁ := by
      refine foldlM_carries (fun s s' id h hok => ?_) h hrecv
      unfold finishRecving at hok
      split at hok
      · cases hok
      · split at hok
        · cases hok
          exact h.carries_objs fun _ => .refl _
        · exact freeBlocks_carries h hok
    refine hone.trans (foldlM_carries (fun s s' id h hok => ?_) hone.refs hsend)
    unfold finishSending at hok
    split at hok
    · cases hok
    · exact freeBlocks_carries h hok

theorem updateFromOutput_carries {o : SchedulerOutput} {m : ModelRunnerOutput}
    {outputs : List EngineCoreOutput} (h : s.RefsOk)
    (hok : updateFromOutput c env s o m = .ok (outputs, s')) : Carries s s' := by
  simp only [updateFromOutput, Result.bind_eq_ok, Prod.exists, Result.pure_eq_ok,
    Prod.mk.injEq] at hok
  obtain ⟨failed, s₁, hfailed, u, hu, outputs₁, s₂, hfinish, s₃, htransfer, -, rfl⟩ := hok
  have h₁ := SameButCounters.carries h (failedLoads_counters hfailed)
  have h₂ := updateRequests_carries (u := { sched := s₁ }) h₁.refs hu
  have h₃ := dequeueStopped_carries (c := c) h₂.refs
  have h₄ : Carries (dequeueStopped c u) s₂ := by
    unfold finishFailed at hfinish
    split at hfinish
    · split at hfinish
      · cases hfinish
      · simp only [Result.bind_eq_ok, Result.pure_eq_ok, Prod.mk.injEq] at hfinish
        obtain ⟨s₄, hs₄, -, rfl⟩ := hfinish
        exact finishRequests_carries h₃.refs hs₄
    · cases hfinish
      exact h₃.refs.carries
  have h₅ := finishTransfers_carries h₄.refs htransfer
  have h₆ : Carries s₃ (takeKvEvents c s₃) := h₅.refs.carries_objs fun _ => .refl _
  exact h₁.trans (h₂.trans (h₃.trans (h₄.trans (h₅.trans h₆))))

theorem addRequest_carries {params : RequestParams} (h : s.RefsOk)
    (hok : addRequest c env s params = .ok s') : Carries s s' := by
  unfold addRequest at hok
  dsimp only at hok
  split at hok
  · split at hok
    · split at hok
      · cases hok
      · cases hok
        exact h.carries_objs (record_update ⟨rfl, rfl⟩)
    · split at hok
      · obtain ⟨session, hsession, n, rfl⟩ := updateRequestAsSession_eq_ok hok
        exact h.carries_objs (record_update (updateAsSession_record hsession))
      · exact finishRequests_carries h hok
  · cases hok
    generalize (if (params.init c.blockHasher).resumable = true then _ else _ : Request) = request
    have hnew : Carries s (s.register request).2 := by
      refine ⟨Nat.le_succ _, fun r hr => ?_, List.Sublist.refl _, ?_⟩
      · simp only [register]
        rw [Function.update_of_ne (Nat.ne_of_lt hr)]
        exact .refl _
      · exact ⟨fun r hr => Nat.lt_succ_of_lt (h.running r hr),
          fun r hr => Nat.lt_succ_of_lt (h.waiting r hr),
          fun r hr => Nat.lt_succ_of_lt (h.skippedWaiting r hr),
          fun id r hr => Nat.lt_succ_of_lt (h.requests id r hr)⟩
    have hqueued := hnew.trans (hnew.refs.enqueue (c := c) (Nat.lt_succ_self s.nextRef))
    refine ⟨hqueued.nextRef, hqueued.record, hqueued.running, hqueued.refs.running,
      hqueued.refs.waiting, hqueued.refs.skippedWaiting, fun id r hr => ?_⟩
    rw [Dict.get?_set] at hr
    split at hr
    · cases hr
      exact Nat.lt_of_lt_of_le (Nat.lt_succ_self s.nextRef)
        (hnew.refs.enqueue (c := c) (Nat.lt_succ_self s.nextRef)).nextRef
    · exact hqueued.refs.requests id r hr

theorem preemptRequest_carries (h : s.RefsOk) (hr : r < s.nextRef)
    (hok : preemptRequest c s r = .ok s') : Carries s s' := by
  obtain ⟨-, rfl⟩ := Step.preemptRequest_eq_ok hok
  refine h.carries_of rfl (record_update ⟨rfl, rfl⟩) (List.Sublist.refl _) (fun x hx => ?_) h.skippedWaiting
    fun _ _ => id
  rcases List.mem_cons.mp ((RequestQueue.prependRequest_perm _ r).mem_iff.mp hx) with rfl | hx
  · exact hr
  · exact h.waiting x hx

theorem preemptAll_carries {fuel : Nat} (h : s.RefsOk) (hok : preemptAll c fuel s = .ok s') :
    Carries s s' := by
  induction fuel generalizing s with
  | zero =>
    cases hok
    exact h.carries
  | succ fuel ih =>
    unfold preemptAll at hok
    split at hok
    · cases hok
      exact h.carries
    · rename_i r hlast
      rw [Result.bind_eq_ok] at hok
      obtain ⟨s₁, hs₁, hok⟩ := hok
      have hmem : r ∈ s.running := List.mem_of_getLast? hlast
      have hfirst : Carries s { s with running := s.running.dropLast } :=
        h.carries_of rfl (fun _ => .refl _) (List.dropLast_sublist _) h.waiting h.skippedWaiting
          fun _ _ => id
      have hsecond := preemptRequest_carries hfirst.refs (h.running r hmem) hs₁
      have hthird : Carries s₁ (s₁.modify r fun q =>
          { q with numOutputPlaceholders := 0, discardLatestAsyncTokens := true }) :=
        hsecond.refs.carries_objs (record_update ⟨rfl, rfl⟩)
      exact hfirst.trans (hsecond.trans (hthird.trans (ih hthird.refs hok)))

theorem resetPrefixCache_carries {reset : Bool} {success : Option Bool} (h : s.RefsOk)
    (hok : resetPrefixCache c s reset = .ok (success, s')) : Carries s s' := by
  simp only [resetPrefixCache, Result.bind_eq_ok, Result.pure_eq_ok, Prod.mk.injEq] at hok
  obtain ⟨s₁, hs₁, -, rfl⟩ := hok
  have hfirst : Carries s s₁ := by
    split at hs₁
    · simp only [Result.bind_eq_ok, Result.pure_eq_ok] at hs₁
      obtain ⟨s₂, hs₂, rfl⟩ := hs₁
      have hall := preemptAll_carries h hs₂
      exact ⟨hall.nextRef, hall.record, hall.running, hall.refs.running, hall.refs.waiting,
        hall.refs.skippedWaiting, hall.refs.requests⟩
    · cases hs₁
      exact h.carries
  exact hfirst.trans (hfirst.refs.carries_objs fun _ => .refl _)

theorem advanceRequests_carries {o o' : SchedulerOutput} {items : List (ReqId × Int)} (h : s.RefsOk)
    (hok : advanceRequests c o items s = .ok (o', s')) : Carries s s' := by
  induction items generalizing s o with
  | nil =>
    cases hok
    exact h.carries
  | cons item items ih =>
    obtain ⟨reqId, n⟩ := item
    unfold advanceRequests at hok
    split at hok
    · cases hok
    · rename_i r hr
      have hone : Carries s (s.advanceRequest c r n) := by
        unfold advanceRequest
        dsimp only
        split
        · exact h.carries_objs (record_update ⟨rfl, rfl⟩)
        · exact h.carries_objs (record_update ⟨rfl, rfl⟩)
      exact hone.trans (ih hone.refs hok)

theorem reservePlaceholders_carries {o o' : SchedulerOutput} {ids : List ReqId} (h : s.RefsOk)
    (hok : reservePlaceholders c o ids s = .ok (o', s')) : Carries s s' := by
  induction ids generalizing s o with
  | nil =>
    cases hok
    exact h.carries
  | cons id ids ih =>
    unfold reservePlaceholders at hok
    split at hok
    · cases hok
    · rename_i r hr
      have hone : Carries s (s.modify r
          (addPlaceholders c (o.scheduledSpecDecodeTokens.getD id []).length)) := by
        refine h.carries_objs (record_update ?_)
        unfold addPlaceholders
        split <;> exact ⟨rfl, rfl⟩
      exact hone.trans (ih hone.refs hok)

theorem updateAfterSchedule_carries {o o' : SchedulerOutput} (h : s.RefsOk)
    (hok : updateAfterSchedule c o s = .ok (o', s')) : Carries s s' := by
  simp only [updateAfterSchedule, Result.bind_eq_ok, Prod.exists] at hok
  obtain ⟨o₁, s₁, hadvance, hok⟩ := hok
  have hone := advanceRequests_carries h hadvance
  have htwo : Carries s₁ { s₁ with finishedReqIds := [] } := hone.refs.carries_objs fun _ => .refl _
  split at hok
  · exact hone.trans (htwo.trans (reservePlaceholders_carries htwo.refs hok))
  · cases hok
    exact hone.trans htwo

theorem makeOutput_carries {st : Step} {o : SchedulerOutput} (h : st.sched.RefsOk)
    (hok : st.makeOutput c = .ok (o, s')) : Carries st.sched s' := by
  obtain ⟨⟨kv, rfl⟩, -⟩ := Step.makeOutput_eq_ok hok
  exact h.carries_of rfl (fun _ => .refl _) (List.Sublist.refl _) h.waiting h.skippedWaiting
    fun _ _ => id

theorem refsOk_of_kept {q : Multiset Ref} (hk : s.ledger.Kept q)
    (hwaiting : ∀ r ∈ s.waiting, r ∈ q) (hskipped : ∀ r ∈ s.skippedWaiting, r ∈ q) : s.RefsOk where
  running r hr := ((hk.running_iff r).1 hr).1
  waiting r hr := hk.bound r (hwaiting r hr)
  skippedWaiting r hr := hk.bound r (hskipped r hr)
  requests id r hr := (hk.known id r hr).1

end Scheduler

end Vllm
