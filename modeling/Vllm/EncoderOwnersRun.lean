import Vllm.EncoderOwnersOps

namespace Vllm

open EncoderCacheManager

namespace Scheduler

variable {c : SchedulerConfig} {env : Outside} {s s' s₁ : Scheduler} {r : Ref} {holders : List Ref}

def Listed (s : Scheduler) : Prop := ∀ id r, s.requests.get? id = some r → r < s.nextRef ∧ (s.objs r).requestId = id

theorem Listed.known (h : s.Listed) : Known s := fun id r hr => (h id r hr).2

structure Recalls (s s' : Scheduler) : Prop where
  requests : ∀ id r, s'.requests.get? id = some r → s.requests.get? id = some r
  requestId : ∀ r, (s'.objs r).requestId = (s.objs r).requestId
  nextRef : s'.nextRef = s.nextRef

theorem Recalls.refl (s : Scheduler) : Recalls s s := ⟨fun _ _ => id, fun _ => rfl, rfl⟩

theorem Recalls.trans (h : Recalls s s₁) (h' : Recalls s₁ s') : Recalls s s' where
  requests id r hr := h.requests id r (h'.requests id r hr)
  requestId r := (h'.requestId r).trans (h.requestId r)
  nextRef := h'.nextRef.trans h.nextRef

theorem Recalls.listed (h : Recalls s s') (hl : s.Listed) : s'.Listed := by
  intro id r hr
  obtain ⟨hlt, hid⟩ := hl id r (h.requests id r hr)
  exact ⟨h.nextRef.symm ▸ hlt, (h.requestId r).trans hid⟩

theorem Recalls.known (h : Recalls s s') (hk : Known s) : Known s' :=
  fun id r hr => (h.requestId r).trans (hk id r (h.requests id r hr))

theorem Recalls.of_steady (h : Step.Steady s s') (hnext : s'.nextRef = s.nextRef) : Recalls s s' :=
  ⟨fun _ _ hr => h.requests ▸ hr, h.requestId, hnext⟩

theorem recalls_update {q : Request} (hreq : s'.requests = s.requests) (hobjs : s'.objs = Function.update s.objs r q)
    (hid : q.requestId = (s.objs r).requestId) (hnext : s'.nextRef = s.nextRef) : Recalls s s' := by
  refine ⟨fun id x hx => hreq ▸ hx, fun x => ?_, hnext⟩
  rw [hobjs, Function.update_apply]
  split
  · rename_i heq
    rw [heq, hid]
  · rfl

theorem RefsOk.queued (h : s.RefsOk) (r : Ref) (hr : r ∈ s.queued) : r < s.nextRef := by
  rcases Multiset.mem_add.mp hr with hr | hr
  · exact h.waiting r hr
  · exact h.skippedWaiting r hr

theorem finishRequests_recalls {ids : Option (List ReqId)} {status : RequestStatus}
    (hok : finishRequests c env s ids status = .ok s') : Recalls s s' := by
  simp only [finishRequests, Result.bind_eq_ok] at hok
  obtain ⟨-, -, hok⟩ := hok
  generalize s.unfinishedOf _ = valid at hok
  obtain ⟨hobjs, hnext, -, -, -, hreq⟩ := finishAll_frame hok
  refine ⟨fun id r hr => ?_, fun r => ?_, hnext⟩
  · rcases hreq id with heq | ⟨hnone, -⟩
    · exact heq.symm.trans hr
    · rw [hnone] at hr
      cases hr
  · rw [hobjs r]
    split
    · rfl
    · rfl

theorem preemptAll_recalls {fuel : Nat} (hok : preemptAll c fuel s = .ok s') : Recalls s s' := by
  induction fuel generalizing s with
  | zero =>
    cases hok
    exact .refl _
  | succ fuel ih =>
    unfold preemptAll at hok
    split at hok
    · cases hok
      exact .refl _
    · rename_i r hlast
      rw [Result.bind_eq_ok] at hok
      obtain ⟨s₁, hs₁, hok⟩ := hok
      obtain ⟨-, rfl⟩ := Step.preemptRequest_eq_ok hs₁
      have hmarked : Recalls s (s.modify r markPreempted) := recalls_update rfl rfl rfl rfl
      refine Recalls.trans (hmarked.trans ?_) (ih hok)
      exact recalls_update rfl rfl rfl rfl

theorem resetPrefixCache_recalls {reset : Bool} {success : Option Bool}
    (hok : resetPrefixCache c s reset = .ok (success, s')) : Recalls s s' := by
  simp only [resetPrefixCache, Result.bind_eq_ok, Result.pure_eq_ok, Prod.mk.injEq] at hok
  obtain ⟨s₁, hs₁, -, rfl⟩ := hok
  have hfirst : Recalls s s₁ := by
    split at hs₁
    · simp only [Result.bind_eq_ok, Result.pure_eq_ok] at hs₁
      obtain ⟨s₂, hs₂, rfl⟩ := hs₁
      have hall := preemptAll_recalls hs₂
      exact ⟨hall.requests, hall.requestId, hall.nextRef⟩
    · cases hs₁
      exact .refl _
  exact ⟨hfirst.requests, hfirst.requestId, hfirst.nextRef⟩

theorem addRequest_listed {params : RequestParams} (h : s.Listed) (hok : addRequest c env s params = .ok s') :
    s'.Listed := by
  unfold addRequest at hok
  dsimp only at hok
  split at hok
  · split at hok
    · split at hok
      · cases hok
      · cases hok
        refine Recalls.listed (s := s) ?_ h
        exact recalls_update rfl rfl rfl rfl
    · split at hok
      · obtain ⟨session, hsession, n, rfl⟩ := updateRequestAsSession_eq_ok hok
        refine Recalls.listed (s := s) ?_ h
        exact recalls_update rfl rfl (updateAsSession_frame hsession).1 rfl
      · exact (finishRequests_recalls hok).listed h
  · cases hok
    generalize (if (params.init c.blockHasher).resumable = true then _ else _ : Request) = request
    have hqueued : (enqueueWaitingRequest c (s.register request).2 s.nextRef).objs =
          Function.update s.objs s.nextRef request ∧
        (enqueueWaitingRequest c (s.register request).2 s.nextRef).requests = s.requests ∧
        (enqueueWaitingRequest c (s.register request).2 s.nextRef).nextRef = s.nextRef + 1 := by
      unfold enqueueWaitingRequest
      split
      · exact ⟨rfl, rfl, rfl⟩
      · exact ⟨rfl, rfl, rfl⟩
    obtain ⟨hobjs, hrequests, hnext⟩ := hqueued
    intro id r hr
    change (Dict.set (enqueueWaitingRequest c (s.register request).2 s.nextRef).requests
      request.requestId s.nextRef).get? id = some r at hr
    change r < (enqueueWaitingRequest c (s.register request).2 s.nextRef).nextRef ∧
      ((enqueueWaitingRequest c (s.register request).2 s.nextRef).objs r).requestId = id
    rw [hrequests, Dict.get?_set] at hr
    rw [hnext, hobjs]
    split at hr
    · rename_i heq
      obtain rfl := Option.some_inj.mp hr
      rw [Function.update_self]
      exact ⟨Nat.lt_succ_self _, heq⟩
    · obtain ⟨hlt, hid⟩ := h id r hr
      rw [Function.update_of_ne (Nat.ne_of_lt hlt)]
      exact ⟨Nat.lt_succ_of_lt hlt, hid⟩

theorem freeBlocks_recalls (hok : s.freeBlocks r = .ok s') :
    Recalls s s' ∧ s'.running = s.running ∧ s'.objs = s.objs ∧ s'.encoderCacheManager = s.encoderCacheManager := by
  simp only [freeBlocks, Result.bind_eq_ok, Result.pure_eq_ok] at hok
  obtain ⟨-, -, rfl⟩ := hok
  exact ⟨⟨fun _ _ => Dict.get?_of_erase, fun _ => rfl, rfl⟩, rfl, rfl, rfl⟩

theorem finishTransfers_recalls {m : ModelRunnerOutput} (hok : finishTransfers s m = .ok s') :
    Recalls s s' ∧ s'.running = s.running ∧ s'.objs = s.objs ∧ s'.encoderCacheManager = s.encoderCacheManager := by
  have htrans : ∀ {s₁ s₂ : Scheduler} {r : Ref}, (Recalls s s₁ ∧ s₁.running = s.running ∧ s₁.objs = s.objs ∧
      s₁.encoderCacheManager = s.encoderCacheManager) → s₁.freeBlocks r = .ok s₂ →
      Recalls s s₂ ∧ s₂.running = s.running ∧ s₂.objs = s.objs ∧ s₂.encoderCacheManager = s.encoderCacheManager := by
    rintro s₁ s₂ r ⟨hrecalls, hrun, hobjs, he⟩ hok
    obtain ⟨hrecalls', hrun', hobjs', he'⟩ := freeBlocks_recalls hok
    exact ⟨hrecalls.trans hrecalls', hrun'.trans hrun, hobjs'.trans hobjs, he'.trans he⟩
  unfold finishTransfers at hok
  split at hok
  · cases hok
    exact ⟨.refl _, rfl, rfl, rfl⟩
  · simp only [updateFromKvXferFinished, Result.bind_eq_ok] at hok
    obtain ⟨s₁, hrecv, hsend⟩ := hok
    refine Result.foldlM_keeps (P := fun t => Recalls s t ∧ t.running = s.running ∧ t.objs = s.objs ∧
      t.encoderCacheManager = s.encoderCacheManager) (fun t id t' ht hok => ?_)
      (Result.foldlM_keeps (P := fun t => Recalls s t ∧ t.running = s.running ∧ t.objs = s.objs ∧
        t.encoderCacheManager = s.encoderCacheManager) (fun t id t' ht hok => ?_) ⟨.refl _, rfl, rfl, rfl⟩ hrecv)
      hsend
    · unfold finishSending at hok
      split at hok
      · cases hok
      · exact htrans ht hok
    · unfold finishRecving at hok
      split at hok
      · cases hok
      · split at hok
        · cases hok
          exact ⟨⟨ht.1.requests, ht.1.requestId, ht.1.nextRef⟩, ht.2⟩
        · exact htrans ht hok

theorem finishFailed_recalls {outputs outputs' : List EngineCoreOutput} {failed : List ReqId}
    (hok : finishFailed c env (outputs, s) failed = .ok (outputs', s')) : Recalls s s' := by
  unfold finishFailed at hok
  split at hok
  · split at hok
    · cases hok
    · simp only [Result.bind_eq_ok, Result.pure_eq_ok, Prod.mk.injEq] at hok
      obtain ⟨s₁, hs₁, -, rfl⟩ := hok
      exact finishRequests_recalls hs₁
  · cases hok
    exact .refl _

theorem finishFailed_owned {outputs outputs' : List EngineCoreOutput} {failed : List ReqId}
    (ho : s.Owned s.running) (hok : finishFailed c env (outputs, s) failed = .ok (outputs', s')) :
    s'.Owned s'.running := by
  unfold finishFailed at hok
  split at hok
  · split at hok
    · cases hok
    · simp only [Result.bind_eq_ok, Result.pure_eq_ok, Prod.mk.injEq] at hok
      obtain ⟨s₁, hs₁, -, rfl⟩ := hok
      exact finishRequests_owned ho hs₁
  · cases hok
    exact ho

theorem updateRequests_recalls {o : SchedulerOutput} {m : ModelRunnerOutput} {failed : List ReqId}
    {items : List (ReqId × Int)} {u u' : UpdateState} (hok : updateRequests c env o m failed items u = .ok u') :
    Recalls u.sched u'.sched := by
  induction items generalizing u with
  | nil =>
    cases hok
    exact .refl _
  | cons item items ih =>
    obtain ⟨reqId, n⟩ := item
    simp only [updateRequests, Result.bind_eq_ok] at hok
    obtain ⟨-, -, hok⟩ := hok
    split at hok
    · exact ih hok
    · split at hok
      · exact ih hok
      · split at hok
        · exact ih hok
        · simp only [Result.bind_eq_ok] at hok
          obtain ⟨u₁, hu₁, hok⟩ := hok
          obtain ⟨⟨q, hobjs, hid⟩, hnext, -⟩ := updateRequest_frame hu₁
          refine Recalls.trans ⟨fun _ _ => get?_of_updateRequest hu₁, fun x => ?_, hnext⟩ (ih hok)
          rw [hobjs, Function.update_apply]
          split
          · rename_i heq
            rw [heq, hid]
          · rfl

theorem SameButCounters.recalls (hc : SameButCounters s s₁) : Recalls s s₁ := by
  obtain ⟨objs, kv, failed, rfl, hobjs⟩ := hc
  refine ⟨fun _ _ => id, fun r => ?_, rfl⟩
  obtain ⟨a, b, hab⟩ := hobjs r
  dsimp only
  rw [hab]

theorem updateFromOutput_recalls {o : SchedulerOutput} {m : ModelRunnerOutput} {outputs : List EngineCoreOutput}
    (hok : updateFromOutput c env s o m = .ok (outputs, s')) : Recalls s s' := by
  simp only [updateFromOutput, Result.bind_eq_ok, Prod.exists, Result.pure_eq_ok, Prod.mk.injEq] at hok
  obtain ⟨failed, s₁, hfailed, u, hu, outputs₁, s₂, hfinish, s₃, htransfer, -, rfl⟩ := hok
  have hloop := (SameButCounters.recalls (failedLoads_counters hfailed)).trans (updateRequests_recalls hu)
  have hdequeued : Recalls s (dequeueStopped c u) := ⟨hloop.requests, hloop.requestId, hloop.nextRef⟩
  have hlast := (hdequeued.trans (finishFailed_recalls hfinish)).trans (finishTransfers_recalls htransfer).1
  exact ⟨hlast.requests, hlast.requestId, hlast.nextRef⟩

theorem SameButCounters.sweeping {ids : List ReqId} (hc : SameButCounters s s₁) (ho : s.Owned s.running)
    (hk : Known s) : Sweeping s₁ ids { sched := s₁ } := by
  obtain ⟨objs, kv, failed, rfl, hobjs⟩ := hc
  have hitems : KeepsItems s { s with objs := objs, kvCacheManager := kv, failedRecvingKvReqIds := failed } := by
    constructor
    · intro r
      obtain ⟨a, b, hab⟩ := hobjs r
      dsimp only
      rw [hab]
    · intro r
      obtain ⟨a, b, hab⟩ := hobjs r
      dsimp only
      rw [hab]
      exact List.Subset.refl _
  refine ⟨fun id r hr => (hitems.requestId r).trans (hk id r hr), fun _ _ _ hr => ⟨hr, rfl⟩, .refl _, ?_⟩
  refine ho.keep hitems (fun r hr => ?_) (.refl _)
  exact List.mem_filter.mpr ⟨hr, decide_eq_true List.not_mem_nil⟩

theorem SameButCounters.parksPinned {m : ModelRunnerOutput} {id : ReqId} (hc : SameButCounters s s₁)
    (hno : parksPinned c s m id r = false) : parksPinned c s₁ m id r = false := by
  obtain ⟨objs, kv, failed, rfl, hobjs⟩ := hc
  obtain ⟨a, b, hab⟩ := hobjs r
  refine Bool.eq_false_iff.mpr fun hparks => ?_
  simp only [Scheduler.parksPinned, Bool.and_eq_true, decide_eq_true_eq] at hparks
  obtain ⟨⟨⟨hst, hgoes⟩, hstops⟩, hpinned⟩ := hparks
  have hstops' : stops c (s.objs r) (m.sampledTokenIds id) (m.hasPoolerOutput id) = true := by
    refine stops_congr ?_ ?_ hstops
    · rw [hab]
      rfl
    · rw [hab]
  rw [hab] at hst hgoes hpinned
  have hgoes' : goesOnStopped (s.objs r) = true := hgoes
  unfold Scheduler.parksPinned at hno
  rw [decide_eq_true hst, hgoes', hstops', hpinned] at hno
  cases hno

theorem updateFromOutput_owned {o : SchedulerOutput} {m : ModelRunnerOutput} {outputs : List EngineCoreOutput}
    (ho : s.Owned s.running) (hk : Known s)
    (hno : ∀ id ∈ o.numScheduledTokens.keys, ∀ r, s.requests.get? id = some r → (s.objs r).isFinished = false →
      parksPinned c s m id r = false)
    (hok : updateFromOutput c env s o m = .ok (outputs, s')) : s'.Owned s'.running := by
  simp only [updateFromOutput, Result.bind_eq_ok, Prod.exists, Result.pure_eq_ok, Prod.mk.injEq] at hok
  obtain ⟨failed, s₁, hfailed, u, hu, outputs₁, s₂, hfinish, s₃, htransfer, -, rfl⟩ := hok
  have hcounters := failedLoads_counters hfailed
  have hstart : Sweeping s₁ (o.numScheduledTokens.items.map Prod.fst) { sched := s₁ } := hcounters.sweeping ho hk
  have hswept := updateRequests_sweeping hstart o.numScheduledTokens.nodup (fun id hid r hr hf => by
    have hcounters' := hcounters
    obtain ⟨objs, kv, failed', rfl, hobjs⟩ := hcounters
    obtain ⟨a, b, hab⟩ := hobjs r
    refine hcounters'.parksPinned (hno id hid r hr ?_)
    dsimp only at hf
    rw [hab] at hf
    exact hf) hu
  have hdequeued : (dequeueStopped c u).Owned (dequeueStopped c u).running := by
    refine hswept.owned.keep ⟨fun _ => rfl, fun _ => List.Subset.refl _⟩ (fun r hr => ?_) (.refl _)
    obtain ⟨hr, hnot⟩ := List.mem_filter.mp hr
    exact mem_removeAll hr (of_decide_eq_true hnot)
  have hfinished := finishFailed_owned hdequeued hfinish
  obtain ⟨-, hrun, hobjs, he⟩ := finishTransfers_recalls htransfer
  exact hfinished.of_eq hobjs hrun he

theorem schedule_refs {o : SchedulerOutput} (hs : s.RefsOk) (ho : s.Owned s.running) (hk : Known s)
    (hno : s.givesUpPinned c env = false) (hok : schedule c env s = .ok (o, s')) : s'.RefsOk ∧ Known s' := by
  simp only [schedule, Result.bind_eq_ok, Prod.exists] at hok
  obtain ⟨st, hst, o₁, s₁, hout, hok⟩ := hok
  have htidy := scheduleRequests_tidy (start_tidy hs.running hs.queued ho) hno hst
  have hrefs : st.sched.RefsOk := by
    constructor
    · intro r hr
      rw [htidy.nextRef]
      exact htidy.running r hr
    · intro r hr
      rw [htidy.nextRef]
      exact htidy.queued r (Multiset.mem_add.mpr (.inl (Multiset.mem_add.mpr (.inl hr))))
    · intro r hr
      rw [htidy.nextRef]
      exact htidy.queued r (Multiset.mem_add.mpr (.inl (Multiset.mem_add.mpr (.inr hr))))
    · intro id r hr
      rw [htidy.nextRef]
      rw [htidy.steady.requests] at hr
      exact hs.requests id r hr
  have hmade := makeOutput_carries hrefs hout
  refine ⟨(updateAfterSchedule_carries hmade.refs hok).refs, ?_⟩
  obtain ⟨⟨kv, rfl⟩, -⟩ := Step.makeOutput_eq_ok hout
  have hadv := updateAfterSchedule_advances hok
  intro id r hr
  rw [hadv.steady.requests] at hr
  rw [hadv.steady.requestId, htidy.steady.requestId]
  exact hk id r (htidy.steady.requests ▸ hr)

end Scheduler

def Scheduler.RefsRunning (s : Scheduler) : Prop :=
  ∀ h refs, s.encoderCacheManager.cached.get? h = some refs → ∀ id ∈ refs, ∃ r ∈ s.running, (s.objs r).requestId = id

/-- `schedule()` does not give up on a request that a check has just added to a reference set, and no output
makes a running request with references wait for its next streaming update. -/
def EngineOp.LeavesNoPins (c : SchedulerConfig) (e : Engine) : EngineOp → Prop
  | .schedule env => e.sched.givesUpPinned c env = false
  | .updateFromOutput _ m =>
    ∀ o ∈ e.inFlight.head?, ∀ reqId ∈ o.numScheduledTokens.keys, ∀ r ∈ e.sched.requests.get? reqId,
      (e.sched.objs r).isFinished = false → Scheduler.parksPinned c e.sched m reqId r = false
  | _ => True

instance EngineOp.LeavesNoPins.decidable {c : SchedulerConfig} (e : Engine) :
    ∀ op : EngineOp, Decidable (op.LeavesNoPins c e)
  | .schedule env => inferInstanceAs (Decidable (e.sched.givesUpPinned c env = false))
  | .updateFromOutput _ m => inferInstanceAs (Decidable (∀ o ∈ e.inFlight.head?,
      ∀ reqId ∈ o.numScheduledTokens.keys, ∀ r ∈ e.sched.requests.get? reqId,
      (e.sched.objs r).isFinished = false → Scheduler.parksPinned c e.sched m reqId r = false))
  | .addRequest .. => isTrue trivial
  | .finishRequests .. => isTrue trivial
  | .resetPrefixCache _ => isTrue trivial
  | .setPauseState _ => isTrue trivial

namespace Engine

variable {c : SchedulerConfig} {e e' : Engine}

structure Tended (e : Engine) : Prop where
  refs : e.sched.RefsOk
  known : e.sched.Known
  owned : e.sched.Owned e.sched.running

theorem Tended.listed (h : e.Tended) : e.sched.Listed := fun id r hr => ⟨h.refs.requests id r hr, h.known id r hr⟩

theorem Tended.refsRunning (h : e.Tended) : e.sched.RefsRunning := by
  intro x refs hget id hid
  obtain ⟨r, hr, hname, -⟩ := h.owned.owner x id ⟨refs, hget, hid⟩
  exact ⟨r, hr, hname⟩

theorem init_tended (hd : c.isEncoderDecoder = false) : (init c).Tended where
  refs := by
    refine ⟨fun r hr => ?_, fun r hr => ?_, fun r hr => ?_, fun id r hr => ?_⟩
    · cases hr
    · cases hr
    · cases hr
    · cases hr
  known id r hr := by cases hr
  owned := by
    refine ⟨hd, fun x id hp => ?_⟩
    obtain ⟨refs, hget, -⟩ := hp
    cases hget

theorem Tended.step {op : EngineOp} (h : e.Tended) (hop : op.LeavesNoPins c e) (hstep : e.step c op = .ok e') :
    e'.Tended := by
  cases op with
  | addRequest env params =>
    simp only [Engine.step, Result.bind_eq_ok, Result.pure_eq_ok] at hstep
    obtain ⟨s, hs, rfl⟩ := hstep
    exact ⟨(Scheduler.addRequest_carries h.refs hs).refs, (Scheduler.addRequest_listed h.listed hs).known,
      Scheduler.addRequest_owned h.owned h.refs.running hs⟩
  | schedule env =>
    simp only [Engine.step, Result.bind_eq_ok, Prod.exists, Result.pure_eq_ok] at hstep
    obtain ⟨o, s, hs, rfl⟩ := hstep
    obtain ⟨hrefs, hknown⟩ := Scheduler.schedule_refs h.refs h.owned h.known hop hs
    exact ⟨hrefs, hknown, Scheduler.schedule_owned h.owned h.refs.running h.refs.queued hop hs⟩
  | updateFromOutput env m =>
    obtain ⟨o, rest, outputs, s, hflight, hs, rfl⟩ := step_updateFromOutput hstep
    have hnext : o ∈ e.inFlight.head? := by
      rw [hflight]
      rfl
    exact ⟨(Scheduler.updateFromOutput_carries h.refs hs).refs, (Scheduler.updateFromOutput_recalls hs).known h.known,
      Scheduler.updateFromOutput_owned h.owned h.known (hop o hnext) hs⟩
  | finishRequests env ids status =>
    simp only [Engine.step, Result.bind_eq_ok, Result.pure_eq_ok] at hstep
    obtain ⟨s, hs, rfl⟩ := hstep
    exact ⟨(Scheduler.finishRequests_carries h.refs hs).refs, (Scheduler.finishRequests_recalls hs).known h.known,
      Scheduler.finishRequests_owned h.owned hs⟩
  | resetPrefixCache reset =>
    simp only [Engine.step, Result.bind_eq_ok, Prod.exists, Result.pure_eq_ok] at hstep
    obtain ⟨success, s, hs, rfl⟩ := hstep
    exact ⟨(Scheduler.resetPrefixCache_carries h.refs hs).refs, (Scheduler.resetPrefixCache_recalls hs).known h.known,
      Scheduler.resetPrefixCache_owned h.owned hs⟩
  | setPauseState p =>
    cases hstep
    exact ⟨⟨h.refs.running, h.refs.waiting, h.refs.skippedWaiting, h.refs.requests⟩, h.known,
      h.owned.of_eq rfl rfl rfl⟩

end Engine

/-- In every run in which no request that a check has added is given up on, and none is parked with its
references, only running requests are referred to. -/
theorem refsRunning_of_leavesNoPins (c : SchedulerConfig) (hd : c.isEncoderDecoder = false) (ops : List EngineOp)
    (h : Guarded (Engine.step c) (fun e op => op.LeavesNoPins c e) (Engine.init c) ops) :
    Throughout (Engine.step c) (fun e => e.sched.RefsRunning) (Engine.init c) ops :=
  throughout_of_inv (fun _ _ _ hinv hop hstep => Engine.Tended.step hinv hop hstep)
    (fun _ hinv => Engine.Tended.refsRunning hinv) (Engine.init_tended hd) h

/-! Two requests share an image; the second one has a further image next to it. -/

def shifted (encoderCacheSize : Nat) : SchedulerConfig where
  kv := { onePool with useEagle := true, numGpuBlocks := 16, maxModelLen := 16 }
  policy := .fcfs
  maxNumRunningReqs := 2
  maxNumScheduledTokens := 8
  maxNumEncoderInputTokens := 8
  encoderCacheSize := encoderCacheSize

def oneImage : RequestParams where
  requestId := "a"
  promptTokenIds := some [1, 2]
  samplingParams := some { maxTokens := 1 }
  mmFeatures := [⟨"x", ⟨0, 1, none⟩⟩]

def twoImages : RequestParams where
  requestId := "b"
  promptTokenIds := some [1, 3, 4, 5, 6, 7]
  samplingParams := some { maxTokens := 1 }
  mmFeatures := [⟨"x", ⟨0, 1, none⟩⟩, ⟨"y", ⟨1, 4, none⟩⟩]

def sharedImage : List EngineOp :=
  [.addRequest {} oneImage, .schedule {}, .updateFromOutput {} { sampledTokenIds := fun _ => [9] },
   .addRequest {} twoImages, .schedule {}]

theorem refsRunning_sharedImage : Throughout (Engine.step (shifted 5)) (fun e => e.sched.RefsRunning)
    (Engine.init (shifted 5)) sharedImage :=
  refsRunning_of_leavesNoPins (shifted 5) rfl sharedImage (by decide +kernel)

/-- The second image does not fit; the request is referred to, but does not run. -/
theorem not_refsRunning_sharedImage :
    ¬ Throughout (Engine.step (shifted 4)) (fun e => e.sched.RefsRunning) (Engine.init (shifted 4)) sharedImage ∧
    ∃ e, runSteps (Engine.step (shifted 4)) (Engine.init (shifted 4)) sharedImage = .ok e ∧
      e.sched.encoderCacheManager.cached.get? "x" = some ["b"] ∧ e.sched.running = [] ∧ e.sched.waiting = [1] := by
  obtain ⟨e, hrun, he⟩ := Result.exists_of_holds
    (x := runSteps (Engine.step (shifted 4)) (Engine.init (shifted 4)) sharedImage)
    (p := fun e => e.sched.encoderCacheManager.cached.get? "x" = some ["b"] ∧ e.sched.running = [] ∧
      e.sched.waiting = [1])
    (by decide +kernel)
  rw [decide_eq_true_eq] at he
  refine ⟨fun h => ?_, e, hrun, he⟩
  obtain ⟨hget, hrunning, -⟩ := he
  obtain ⟨r, hr, -⟩ := (h.last hrun) "x" ["b"] hget "b" (List.mem_singleton_self _)
  rw [hrunning] at hr
  cases hr

end Vllm
