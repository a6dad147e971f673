import Vllm.EncoderSlotReplay

namespace Vllm

open EncoderCacheManager

namespace Scheduler

variable {c : SchedulerConfig} {env : Outside} {s s' : Scheduler} {r : Ref} {status : RequestStatus}

theorem freeEncoderInputs_replays {e : EncoderCacheManager} (h : e.Solvent) (r : Ref) (request : Request) :
    Replays (freeEncoderInputsCalls c r request) e (freeEncoderInputs c e request) := by
  unfold freeEncoderInputsCalls freeEncoderInputs getCachedInputIds
  rw [if_pos h.encoderDecoder]
  generalize List.range request.mmFeatures.length = l
  induction l generalizing e with
  | nil => exact .nil h
  | cons i l ih =>
    rw [List.foldl_cons, List.filter_cons]
    cases hf : request.mmFeatures[i]? with
    | none =>
      rw [if_neg Bool.false_ne_true]
      exact ih h
    | some f =>
      dsimp only
      split
      · rename_i hcond
        rw [if_pos (of_decide_eq_true hcond)]
        have hone := (foldl_freeEncoderInput_replays h r request [i]).1
        exact hone.append (ih hone.solvent)
      · rename_i hcond
        rw [if_neg (of_decide_eq_false (Bool.eq_false_iff.mpr hcond))]
        exact ih h

theorem advanceRequest_replays (h : s.encoderCacheManager.Solvent) (r : Ref) (n : Int) :
    Replays (if (advance n (s.objs r)).hasEncoderInputs then freeEncoderInputsCalls c r (advance n (s.objs r)) else [])
      s.encoderCacheManager (s.advanceRequest c r n).encoderCacheManager := by
  have hobj : (s.modify r (advance n)).objs r = advance n (s.objs r) := Function.update_self ..
  unfold advanceRequest
  dsimp only
  rw [hobj]
  split
  · exact freeEncoderInputs_replays h r _
  · exact .nil h

theorem advanceRequests_replays {o o' : SchedulerOutput} {items : List (ReqId × Int)}
    (h : s.encoderCacheManager.Solvent) (hok : advanceRequests c o items s = .ok (o', s')) :
    Replays (advanceRequestsCalls c items s) s.encoderCacheManager s'.encoderCacheManager := by
  induction items generalizing s o with
  | nil =>
    cases hok
    exact .nil h
  | cons item items ih =>
    obtain ⟨reqId, n⟩ := item
    unfold advanceRequests at hok
    unfold advanceRequestsCalls
    cases hr : s.requests.get? reqId with
    | none =>
      rw [hr] at hok
      cases hok
    | some r =>
      rw [hr] at hok
      have hone := @advanceRequest_replays c s h r n
      exact hone.append (ih hone.solvent hok)

theorem reservePlaceholders_encoder_eq {o o' : SchedulerOutput} {ids : List ReqId}
    (hok : reservePlaceholders c o ids s = .ok (o', s')) : s'.encoderCacheManager = s.encoderCacheManager := by
  induction ids generalizing s o with
  | nil =>
    cases hok
    rfl
  | cons reqId ids ih =>
    unfold reservePlaceholders at hok
    split at hok
    · cases hok
    · have hrest := ih hok
      exact hrest

theorem schedule_replays {o : SchedulerOutput} (h : s.encoderCacheManager.Solvent)
    (hok : schedule c env s = .ok (o, s')) :
    Replays (scheduleCalls c env s) s.encoderCacheManager s'.encoderCacheManager := by
  simp only [schedule, Result.bind_eq_ok, Prod.exists] at hok
  obtain ⟨st, hst, o₁, s₁, hout, hok⟩ := hok
  simp only [updateAfterSchedule, Result.bind_eq_ok, Prod.exists] at hok
  obtain ⟨o₂, s₂, hadv, hok⟩ := hok
  have hloops := Step.scheduleRequests_replays h hst
  have htaken : Replays [.getFreedMmHashes] st.sched.encoderCacheManager s₁.encoderCacheManager := by
    obtain ⟨⟨kv, rfl⟩, -⟩ := Step.makeOutput_eq_ok hout
    refine ⟨rfl, ?_⟩
    unfold getFreedMmHashes
    rw [if_pos hloops.solvent.encoderDecoder]
    exact ⟨hloops.solvent.encoderDecoder, hloops.solvent.nonneg⟩
  have hadvanced := advanceRequests_replays htaken.solvent hadv
  have hlast : s'.encoderCacheManager = s₂.encoderCacheManager := by
    split at hok
    · have hreserved := reservePlaceholders_encoder_eq hok
      exact hreserved
    · cases hok
      rfl
  unfold scheduleCalls
  rw [hst, Result.collect_ok, hout, Result.collect_ok, hlast]
  exact Replays.append hloops (htaken.append hadvanced)

theorem freeRequest_replays {delay : Bool} (h : s.encoderCacheManager.Solvent)
    (hok : freeRequest c env s r delay = .ok s') :
    Replays (EncoderCall.free r (s.objs r)) s.encoderCacheManager s'.encoderCacheManager ∧ s'.objs = s.objs := by
  obtain ⟨-, kv, requests, ids, rfl, -⟩ := freeRequest_eq_ok hok
  exact ⟨(free_replays h r _).1, rfl⟩

theorem finishRequest_replays (h : s.encoderCacheManager.Solvent)
    (hok : finishRequest c env status s r = .ok s') :
    Replays (EncoderCall.free r { s.objs r with status := status }) s.encoderCacheManager
      s'.encoderCacheManager := by
  obtain ⟨finished, failed, delay, hfree, -⟩ := finishRequest_eq_ok hok
  have hreplay := (freeRequest_replays (by exact h) hfree).1
  dsimp only at hreplay
  rw [Function.update_self] at hreplay
  exact hreplay

theorem finishAll_replays {refs : List Ref} (h : s.encoderCacheManager.Solvent)
    (hok : refs.foldlM (finishRequest c env status) s = .ok s') :
    Replays (finishAllCalls c env status refs s) s.encoderCacheManager s'.encoderCacheManager := by
  induction refs generalizing s with
  | nil =>
    cases hok
    exact .nil h
  | cons r refs ih =>
    rw [List.foldlM_cons, Result.bind_eq_ok] at hok
    obtain ⟨s₁, hs₁, hok⟩ := hok
    have hone := finishRequest_replays h hs₁
    unfold finishAllCalls
    rw [hs₁, Result.collect_ok]
    exact hone.append (ih hone.solvent hok)

theorem finishRequests_replays {ids : Option (List ReqId)} (h : s.encoderCacheManager.Solvent)
    (hok : finishRequests c env s ids status = .ok s') :
    Replays (finishRequestsCalls c env s ids status) s.encoderCacheManager s'.encoderCacheManager := by
  simp only [finishRequests, Result.bind_eq_ok] at hok
  obtain ⟨-, -, hok⟩ := hok
  have hreplay := @finishAll_replays c env _ _ _ _ (by exact h) hok
  exact hreplay

theorem addRequest_replays {params : RequestParams} (h : s.encoderCacheManager.Solvent)
    (hok : addRequest c env s params = .ok s') :
    Replays (addRequestCalls c env s params) s.encoderCacheManager s'.encoderCacheManager := by
  unfold addRequest at hok
  unfold addRequestCalls
  dsimp only at hok ⊢
  cases hget : s.requests.get? (params.init c.blockHasher).requestId with
  | some existing =>
    rw [hget] at hok
    dsimp only at hok ⊢
    split at hok
    · rename_i hst
      rw [if_pos hst]
      split at hok
      · cases hok
      · cases hok
        exact .nil h
    · rename_i hst
      rw [if_neg hst]
      cases hupdate : StreamingUpdate.fromRequest (params.init c.blockHasher) with
      | some update =>
        rw [hupdate] at hok
        obtain ⟨session, -, n, rfl⟩ := updateRequestAsSession_eq_ok hok
        exact .nil h
      | none =>
        rw [hupdate] at hok
        exact finishRequests_replays h hok
  | none =>
    rw [hget] at hok
    cases hok
    generalize (if (params.init c.blockHasher).resumable = true then _ else _ : Request) = request
    have hsame : (enqueueWaitingRequest c (s.register request).2 s.nextRef).encoderCacheManager =
        s.encoderCacheManager := by
      unfold enqueueWaitingRequest
      split
      · rfl
      · rfl
    exact ⟨congrArg Except.ok hsame.symm, hsame ▸ h⟩

section Update

variable {o : SchedulerOutput} {m : ModelRunnerOutput} {u u' : UpdateState} {reqId : ReqId}

theorem handleStoppedRequest_encoder {finished : Bool} (hok : handleStoppedRequest c s r = .ok (finished, s')) :
    s'.encoderCacheManager = s.encoderCacheManager ∧
      (s'.objs r).isFinished = (finished && (s.objs r).isFinished) := by
  have hqueued : ∀ s : Scheduler, (enqueueWaitingRequest c s r).encoderCacheManager = s.encoderCacheManager ∧
      (enqueueWaitingRequest c s r).objs = s.objs := by
    intro s
    unfold enqueueWaitingRequest
    split
    · exact ⟨rfl, rfl⟩
    · exact ⟨rfl, rfl⟩
  rcases handleStoppedRequest_cases hok with ⟨rfl, rfl | ⟨queue, rfl⟩⟩ |
    ⟨rfl, -, update, queue, session, -, hsession, n, rfl⟩ | ⟨rfl, -, -, n, rfl⟩
  · exact ⟨rfl, rfl⟩
  · refine ⟨rfl, ?_⟩
    simp only [modify, Function.update_self]
    rfl
  · obtain ⟨-, hstatus⟩ := updateAsSession_frame hsession
    refine ⟨(hqueued _).1, ?_⟩
    rw [(hqueued _).2]
    dsimp only
    rw [Function.update_self, Request.isFinished, hstatus]
    rfl
  · refine ⟨(hqueued _).1, ?_⟩
    rw [(hqueued _).2]
    simp only [modify, Function.update_self]
    rfl

theorem updateRequest_replays (h : u.sched.encoderCacheManager.Solvent) (hlive : (u.sched.objs r).isFinished = false)
    (hok : updateRequest c env o m u reqId r = .ok u') :
    Replays (if (u'.sched.objs r).isFinished then EncoderCall.free r (u'.sched.objs r) else [])
      u.sched.encoderCacheManager u'.sched.encoderCacheManager := by
  obtain ⟨kept, stopped, q, kv, hstep, -, -, hcase⟩ := updateRequest_eq_ok hok
  obtain ⟨computed, placeholders, hdrafts⟩ := afterDrafts_frame o m reqId (u.sched.objs r)
  obtain ⟨-, -, -, hstatus⟩ := hstep.frame
  rw [hdrafts] at hstatus
  rcases hcase with ⟨rfl, hsched, -⟩ | ⟨rfl, ⟨finished, s₁, hstop, hsettle⟩, -⟩
  · have hnot : q.isFinished = false := by
      rcases hstatus with ⟨-, hsame⟩ | ⟨hno, -⟩
      · rw [Request.isFinished, hsame]
        exact hlive
      · cases hno
    have hnow : (u'.sched.objs r).isFinished = false := by
      rw [hsched]
      dsimp only
      rw [Function.update_self, hnot]
    rw [if_neg (Bool.eq_false_iff.mp hnow), hsched]
    exact .nil h
  · have hdone : q.isFinished = true := by
      rcases hstatus with ⟨hno, -⟩ | ⟨-, hfin⟩
      · cases hno
      · exact hfin
    obtain ⟨he, hfin⟩ := handleStoppedRequest_encoder hstop
    dsimp only at he hfin
    rw [Function.update_self, hdone, Bool.and_true] at hfin
    rw [← he]
    have h₁ : s₁.encoderCacheManager.Solvent := he ▸ h
    rcases hsettle with ⟨rfl, hfree⟩ | ⟨rfl, hsched⟩
    · obtain ⟨hreplay, hobjs⟩ := freeRequest_replays h₁ hfree
      rw [hobjs, if_pos hfin]
      exact hreplay
    · rw [hsched, if_neg (Bool.eq_false_iff.mp hfin)]
      exact .nil h₁

theorem updateRequests_replays {failed : List ReqId} {items : List (ReqId × Int)}
    (h : u.sched.encoderCacheManager.Solvent) (hok : updateRequests c env o m failed items u = .ok u') :
    Replays (updateRequestsCalls c env o m failed items u) u.sched.encoderCacheManager
      u'.sched.encoderCacheManager := by
  induction items generalizing u with
  | nil =>
    cases hok
    exact .nil h
  | cons item items ih =>
    obtain ⟨reqId, n⟩ := item
    simp only [updateRequests, Result.bind_eq_ok] at hok
    obtain ⟨-, -, hok⟩ := hok
    unfold updateRequestsCalls
    split at hok
    · rename_i hfailed
      rw [if_pos hfailed]
      exact ih h hok
    · rename_i hfailed
      rw [if_neg hfailed]
      cases hget : u.sched.requests.get? reqId with
      | none =>
        rw [hget] at hok
        exact ih h hok
      | some r =>
        rw [hget] at hok
        dsimp only at hok ⊢
        split at hok
        · rename_i hfin
          rw [if_pos hfin]
          exact ih h hok
        · rename_i hfin
          rw [if_neg hfin]
          simp only [Result.bind_eq_ok] at hok
          obtain ⟨u₁, hu₁, hok⟩ := hok
          have hone := updateRequest_replays h (Bool.eq_false_iff.mpr hfin) hu₁
          rw [hu₁, Result.collect_ok]
          exact hone.append (ih hone.solvent hok)

theorem finishFailed_replays {outputs outputs' : List EngineCoreOutput} {failed : List ReqId}
    (h : s.encoderCacheManager.Solvent) (hok : finishFailed c env (outputs, s) failed = .ok (outputs', s')) :
    Replays (finishFailedCalls c env s failed) s.encoderCacheManager s'.encoderCacheManager := by
  unfold finishFailed at hok
  unfold finishFailedCalls
  split at hok
  · rename_i hfail
    rw [if_pos hfail]
    split at hok
    · cases hok
    · simp only [Result.bind_eq_ok, Result.pure_eq_ok, Prod.mk.injEq] at hok
      obtain ⟨s₁, hs₁, -, rfl⟩ := hok
      exact finishRequests_replays h hs₁
  · rename_i hfail
    cases hok
    rw [if_neg hfail]
    exact .nil h

theorem freeBlocks_encoder (hok : s.freeBlocks r = .ok s') : s'.encoderCacheManager = s.encoderCacheManager := by
  simp only [freeBlocks, Result.bind_eq_ok, Result.pure_eq_ok] at hok
  obtain ⟨-, -, rfl⟩ := hok
  rfl

theorem finishTransfers_encoder (hok : finishTransfers s m = .ok s') :
    s'.encoderCacheManager = s.encoderCacheManager := by
  unfold finishTransfers at hok
  split at hok
  · cases hok
    rfl
  · simp only [updateFromKvXferFinished, Result.bind_eq_ok] at hok
    obtain ⟨s₁, hrecv, hsend⟩ := hok
    have hone : s₁.encoderCacheManager = s.encoderCacheManager := by
      refine Result.foldlM_keeps (P := fun t => t.encoderCacheManager = s.encoderCacheManager)
        (fun t id t' ht hok => ?_) rfl hrecv
      unfold finishRecving at hok
      split at hok
      · cases hok
      · split at hok
        · cases hok
          exact ht
        · exact (freeBlocks_encoder hok).trans ht
    refine Result.foldlM_keeps (P := fun t => t.encoderCacheManager = s.encoderCacheManager)
      (fun t id t' ht hok => ?_) hone hsend
    unfold finishSending at hok
    split at hok
    · cases hok
    · exact (freeBlocks_encoder hok).trans ht

theorem updateFromOutput_replays {outputs : List EngineCoreOutput} (h : s.encoderCacheManager.Solvent)
    (hok : updateFromOutput c env s o m = .ok (outputs, s')) :
    Replays (updateFromOutputCalls c env s o m) s.encoderCacheManager s'.encoderCacheManager := by
  simp only [updateFromOutput, Result.bind_eq_ok, Prod.exists, Result.pure_eq_ok, Prod.mk.injEq] at hok
  obtain ⟨failed, s₁, hfailed, u, hu, outputs₁, s₂, hfinish, s₃, htransfer, -, rfl⟩ := hok
  obtain ⟨objs, kv, failedIds, hs₁, -⟩ := failedLoads_counters hfailed
  have he₁ : s₁.encoderCacheManager = s.encoderCacheManager := by rw [hs₁]
  have hloop := @updateRequests_replays c env o m { sched := s₁ } u _ _ (by exact he₁ ▸ h) hu
  have hfinished := @finishFailed_replays c env (dequeueStopped c u) s₂ _ _ _ (by exact hloop.solvent) hfinish
  have htransferred : s₃.encoderCacheManager = s₂.encoderCacheManager := finishTransfers_encoder htransfer
  have hlast : (takeKvEvents c s₃).encoderCacheManager = s₂.encoderCacheManager := htransferred
  unfold updateFromOutputCalls
  rw [hfailed, Result.collect_ok]
  dsimp only
  rw [hu, Result.collect_ok, hlast, ← he₁]
  exact hloop.append hfinished

end Update

theorem preemptAll_replays {fuel : Nat} (h : s.encoderCacheManager.Solvent) (hok : preemptAll c fuel s = .ok s') :
    Replays (preemptAllCalls c fuel s) s.encoderCacheManager s'.encoderCacheManager := by
  induction fuel generalizing s with
  | zero =>
    cases hok
    exact .nil h
  | succ fuel ih =>
    unfold preemptAll at hok
    unfold preemptAllCalls
    cases hlast : s.running.getLast? with
    | none =>
      rw [hlast] at hok
      cases hok
      exact .nil h
    | some r =>
      rw [hlast] at hok
      dsimp only at hok ⊢
      rw [Result.bind_eq_ok] at hok
      obtain ⟨s₁, hs₁, hok⟩ := hok
      rw [hs₁, Result.collect_ok]
      obtain ⟨-, rfl⟩ := Step.preemptRequest_eq_ok hs₁
      have hone := (free_replays h r (s.objs r)).1
      exact hone.append (ih (by exact hone.solvent) hok)

theorem resetPrefixCache_replays {reset : Bool} {success : Option Bool} (h : s.encoderCacheManager.Solvent)
    (hok : resetPrefixCache c s reset = .ok (success, s')) :
    Replays (resetPrefixCacheCalls c s reset) s.encoderCacheManager s'.encoderCacheManager := by
  simp only [resetPrefixCache, Result.bind_eq_ok, Result.pure_eq_ok, Prod.mk.injEq] at hok
  obtain ⟨s₁, hs₁, -, rfl⟩ := hok
  unfold resetPrefixCacheCalls
  split at hs₁
  · rename_i hreset
    rw [if_pos hreset]
    simp only [Result.bind_eq_ok, Result.pure_eq_ok] at hs₁
    obtain ⟨s₂, hs₂, rfl⟩ := hs₁
    have hall := preemptAll_replays h hs₂
    exact hall
  · rename_i hreset
    cases hs₁
    rw [if_neg hreset]
    exact .nil h

end Scheduler

theorem Engine.step_replays {c : SchedulerConfig} {e e' : Engine} {op : EngineOp}
    (h : e.sched.encoderCacheManager.Solvent) (hstep : e.step c op = .ok e') :
    Replays (e.encoderCalls c op) e.sched.encoderCacheManager e'.sched.encoderCacheManager := by
  cases op with
  | addRequest env params =>
    simp only [Engine.step, Result.bind_eq_ok, Result.pure_eq_ok] at hstep
    obtain ⟨s, hs, rfl⟩ := hstep
    exact Scheduler.addRequest_replays h hs
  | schedule env =>
    simp only [Engine.step, Result.bind_eq_ok, Prod.exists, Result.pure_eq_ok] at hstep
    obtain ⟨o, s, hs, rfl⟩ := hstep
    exact Scheduler.schedule_replays h hs
  | updateFromOutput env m =>
    obtain ⟨o, rest, outputs, s, hflight, hs, rfl⟩ := step_updateFromOutput hstep
    unfold Engine.encoderCalls
    rw [hflight]
    exact Scheduler.updateFromOutput_replays h hs
  | finishRequests env ids status =>
    simp only [Engine.step, Result.bind_eq_ok, Result.pure_eq_ok] at hstep
    obtain ⟨s, hs, rfl⟩ := hstep
    exact Scheduler.finishRequests_replays h hs
  | resetPrefixCache reset =>
    simp only [Engine.step, Result.bind_eq_ok, Prod.exists, Result.pure_eq_ok] at hstep
    obtain ⟨success, s, hs, rfl⟩ := hstep
    exact Scheduler.resetPrefixCache_replays h hs
  | setPauseState p =>
    cases hstep
    exact .nil h

end Vllm
