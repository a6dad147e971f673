import Vllm.EncoderAgreement
import Vllm.QueueRun

namespace Vllm

open EncoderCacheManager

namespace Scheduler

variable {c : SchedulerConfig} {env : Outside} {s s' : Scheduler} {r : Ref}

def Releases (s s' : Scheduler) : Prop := Released s.encoderCacheManager s'.encoderCacheManager

theorem releases_of_eq (h : s'.encoderCacheManager = s.encoderCacheManager) : Releases s s' := by
  unfold Releases
  rw [h]
  exact .refl _

theorem Releases.trans {s₁ : Scheduler} (h : Releases s s₁) (h' : Releases s₁ s') : Releases s s' :=
  Released.trans h h'

theorem foldlM_releases {α : Type} {f : Scheduler → α → Result Scheduler} {l : List α}
    (hf : ∀ s s' a, f s a = .ok s' → Releases s s') (h : l.foldlM f s = .ok s') :
    Releases s s' := by
  induction l generalizing s with
  | nil =>
    cases h
    exact .refl _
  | cons a l ih =>
    simp only [List.foldlM_cons, Result.bind_eq_ok] at h
    obtain ⟨s₁, hs₁, h⟩ := h
    exact (hf s s₁ a hs₁).trans (ih h)

theorem freeRequest_releases {delay : Bool} (h : freeRequest c env s r delay = .ok s') :
    Releases s s' := by
  obtain ⟨-, kv, requests, ids, rfl, -⟩ := freeRequest_eq_ok h
  exact free_released _ _

theorem finishRequests_releases {ids : Option (List ReqId)} {status : RequestStatus}
    (h : finishRequests c env s ids status = .ok s') : Releases s s' := by
  simp only [finishRequests, Result.bind_eq_ok] at h
  obtain ⟨-, -, h⟩ := h
  have hdequeue : ∀ valid, Releases s (dequeueFinished c s valid) := fun _ => releases_of_eq rfl
  refine (hdequeue _).trans (foldlM_releases (fun s s' r hr => ?_) h)
  obtain ⟨finished, failed, delay, hfree, -⟩ := finishRequest_eq_ok hr
  have hreleases := freeRequest_releases hfree
  exact hreleases

theorem enqueueWaitingRequest_encoder (s : Scheduler) (r : Ref) :
    (enqueueWaitingRequest c s r).encoderCacheManager = s.encoderCacheManager := by
  unfold enqueueWaitingRequest
  split
  · rfl
  · rfl

theorem Settled.releases (h : Settled c env s r s') : Releases s s' := by
  obtain ⟨finished, s₁, hstop, hcase⟩ := h
  have hs₁ : Releases s s₁ := by
    apply releases_of_eq
    rcases handleStoppedRequest_cases hstop with ⟨-, rfl | ⟨queue, rfl⟩⟩ |
      ⟨-, -, update, queue, session, -, -, n, rfl⟩ | ⟨-, -, -, n, rfl⟩
    · rfl
    · rfl
    · exact enqueueWaitingRequest_encoder _ r
    · exact enqueueWaitingRequest_encoder _ r
  rcases hcase with ⟨-, hfree⟩ | ⟨-, rfl⟩
  · exact hs₁.trans (freeRequest_releases hfree)
  · exact hs₁

variable {o : SchedulerOutput} {m : ModelRunnerOutput} {u u' : UpdateState} {reqId : ReqId}

theorem updateRequest_releases (h : updateRequest c env o m u reqId r = .ok u') :
    Releases u.sched u'.sched := by
  obtain ⟨kept, stopped, q, kv, -, -, -, hcase⟩ := updateRequest_eq_ok h
  rcases hcase with ⟨-, hsched, -⟩ | ⟨-, hsettled, -⟩
  · rw [hsched]
    exact .refl _
  · exact hsettled.releases

theorem updateRequests_releases {failed : List ReqId} {items : List (ReqId × Int)}
    (h : updateRequests c env o m failed items u = .ok u') : Releases u.sched u'.sched := by
  induction items generalizing u with
  | nil =>
    cases h
    exact .refl _
  | cons item items ih =>
    obtain ⟨reqId, n⟩ := item
    simp only [updateRequests, Result.bind_eq_ok] at h
    obtain ⟨-, -, h⟩ := h
    split at h
    · exact ih h
    · split at h
      · exact ih h
      · split at h
        · exact ih h
        · simp only [Result.bind_eq_ok] at h
          obtain ⟨u₁, hu₁, h⟩ := h
          exact (updateRequest_releases hu₁).trans (ih h)

theorem freeBlocks_releases (h : s.freeBlocks r = .ok s') : Releases s s' := by
  simp only [freeBlocks, Result.bind_eq_ok, Result.pure_eq_ok] at h
  obtain ⟨-, -, rfl⟩ := h
  exact .refl _

theorem finishTransfers_releases (h : finishTransfers s m = .ok s') : Releases s s' := by
  unfold finishTransfers at h
  split at h
  · cases h
    exact .refl _
  · simp only [updateFromKvXferFinished, Result.bind_eq_ok] at h
    obtain ⟨s₁, hs₁, h⟩ := h
    refine .trans (foldlM_releases (fun s s' id h => ?_) hs₁)
      (foldlM_releases (fun s s' id h => ?_) h)
    · unfold finishRecving at h
      split at h
      · cases h
      · split at h
        · cases h
          exact .refl _
        · exact freeBlocks_releases h
    · unfold finishSending at h
      split at h
      · cases h
      · exact freeBlocks_releases h

theorem finishFailed_releases {outputs outputs' : List EngineCoreOutput} {failed : List ReqId}
    (h : finishFailed c env (outputs, s) failed = .ok (outputs', s')) : Releases s s' := by
  unfold finishFailed at h
  split at h
  · split at h
    · cases h
    · simp only [Result.bind_eq_ok, Result.pure_eq_ok, Prod.mk.injEq] at h
      obtain ⟨s₁, hs₁, -, rfl⟩ := h
      exact finishRequests_releases hs₁
  · cases h
    exact .refl _

theorem updateFromOutput_releases {outputs : List EngineCoreOutput}
    (h : updateFromOutput c env s o m = .ok (outputs, s')) : Releases s s' := by
  simp only [updateFromOutput, Result.bind_eq_ok, Prod.exists, Result.pure_eq_ok,
    Prod.mk.injEq] at h
  obtain ⟨failed, s₁, hfailed, u, hu, outputs₁, s₂, hfinish, s₃, htransfer, -, rfl⟩ := h
  obtain ⟨objs, kv, ids, rfl, -⟩ := failedLoads_counters hfailed
  have hloop : Releases s u.sched := updateRequests_releases hu
  have hdequeue : Releases u.sched (dequeueStopped c u) := .refl _
  have hfinished := (hloop.trans hdequeue).trans (finishFailed_releases hfinish)
  have hdone := hfinished.trans (finishTransfers_releases htransfer)
  exact hdone

theorem preemptAll_releases {fuel : Nat} (h : preemptAll c fuel s = .ok s') : Releases s s' := by
  induction fuel generalizing s with
  | zero =>
    cases h
    exact .refl _
  | succ fuel ih =>
    unfold preemptAll at h
    split at h
    · cases h
      exact .refl _
    · simp only [Result.bind_eq_ok] at h
      obtain ⟨s₁, hs₁, h⟩ := h
      obtain ⟨-, rfl⟩ := Step.preemptRequest_eq_ok hs₁
      have hrest := ih h
      exact Released.trans (free_released _ _) hrest

theorem resetPrefixCache_releases {reset : Bool} {success : Option Bool}
    (h : resetPrefixCache c s reset = .ok (success, s')) : Releases s s' := by
  simp only [resetPrefixCache, Result.bind_eq_ok, Result.pure_eq_ok, Prod.mk.injEq] at h
  obtain ⟨s₁, hs₁, -, rfl⟩ := h
  split at hs₁
  · simp only [Result.bind_eq_ok, Result.pure_eq_ok] at hs₁
    obtain ⟨s₂, hs₂, rfl⟩ := hs₁
    have hreleases := preemptAll_releases hs₂
    exact hreleases
  · cases hs₁
    exact .refl _

theorem addRequest_releases {params : RequestParams} (h : addRequest c env s params = .ok s') :
    Releases s s' := by
  unfold addRequest at h
  dsimp only at h
  split at h
  · split at h
    · split at h
      · cases h
      · cases h
        exact .refl _
    · split at h
      · obtain ⟨session, -, n, rfl⟩ := updateRequestAsSession_eq_ok h
        exact .refl _
      · exact finishRequests_releases h
  · cases h
    exact releases_of_eq (enqueueWaitingRequest_encoder _ _)

theorem freeEncoderInputs_released (e : EncoderCacheManager) (request : Request) :
    Released e (freeEncoderInputs c e request) := by
  refine foldl_released (fun e i => ?_) _ e
  split
  · exact .refl e
  · split
    · exact freeEncoderInput_released e request i
    · exact .refl e

theorem advanceRequests_encoder {o' : SchedulerOutput} {items : List (ReqId × Int)}
    (h : advanceRequests c o items s = .ok (o', s')) :
    Releases s s' ∧ Step.Steady s s' ∧ o'.scheduledEncoderInputs = o.scheduledEncoderInputs ∧
      o'.freeEncoderMmHashes = o.freeEncoderMmHashes := by
  induction items generalizing s o with
  | nil =>
    cases h
    exact ⟨.refl _, .refl _, rfl, rfl⟩
  | cons item items ih =>
    obtain ⟨reqId, n⟩ := item
    unfold advanceRequests at h
    split at h
    · cases h
    · rename_i r _
      obtain ⟨hrel, hsteady, hinputs, hfreed⟩ := ih h
      have hstep : Step.Steady s (s.advanceRequest c r n) := by
        unfold advanceRequest
        dsimp only
        split
        · exact Step.steady_update rfl rfl rfl rfl
        · exact Step.steady_update rfl rfl rfl rfl
      have hstepRel : Releases s (s.advanceRequest c r n) := by
        unfold advanceRequest
        dsimp only
        split
        · exact freeEncoderInputs_released _ _
        · exact .refl _
      exact ⟨hstepRel.trans hrel, hstep.trans hsteady, hinputs, hfreed⟩

theorem reservePlaceholders_encoder {o' : SchedulerOutput} {ids : List ReqId}
    (h : reservePlaceholders c o ids s = .ok (o', s')) :
    Releases s s' ∧ Step.Steady s s' ∧ o'.scheduledEncoderInputs = o.scheduledEncoderInputs ∧
      o'.freeEncoderMmHashes = o.freeEncoderMmHashes := by
  induction ids generalizing s o with
  | nil =>
    cases h
    exact ⟨.refl _, .refl _, rfl, rfl⟩
  | cons reqId ids ih =>
    unfold reservePlaceholders at h
    split at h
    · cases h
    · rename_i r _
      obtain ⟨hrel, hsteady, hinputs, hfreed⟩ := ih h
      refine ⟨hrel, .trans (Step.steady_modify s ?_ ?_) hsteady, hinputs, hfreed⟩
      · unfold addPlaceholders
        split <;> rfl
      · unfold addPlaceholders
        split <;> rfl

theorem updateAfterSchedule_encoder {o' : SchedulerOutput}
    (h : updateAfterSchedule c o s = .ok (o', s')) :
    Releases s s' ∧ Step.Steady s s' ∧ o'.scheduledEncoderInputs = o.scheduledEncoderInputs ∧
      o'.freeEncoderMmHashes = o.freeEncoderMmHashes := by
  simp only [updateAfterSchedule, Result.bind_eq_ok, Prod.exists] at h
  obtain ⟨o₁, s₁, hadv, h⟩ := h
  obtain ⟨hrel, hsteady, hinputs, hfreed⟩ := advanceRequests_encoder hadv
  split at h
  · obtain ⟨hrel', hsteady', hinputs', hfreed'⟩ := reservePlaceholders_encoder h
    have hsteady₁ := hsteady.trans ⟨hsteady'.requests, hsteady'.features, hsteady'.requestId⟩
    exact ⟨hrel.trans hrel', hsteady₁, hinputs'.trans hinputs, hfreed'.trans hfreed⟩
  · cases h
    exact ⟨hrel, ⟨hsteady.requests, hsteady.features, hsteady.requestId⟩, hinputs, hfreed⟩

end Scheduler

def workerCache (s : Scheduler) (o : SchedulerOutput) (worker : List String) : List String :=
  worker.filter (· ∉ o.freeEncoderMmHashes) ++
    o.scheduledEncoderInputs.items.flatMap fun (reqId, inputs) =>
      match s.requests.get? reqId with
      | none => []
      | some r => inputs.filterMap fun i =>
          (s.objs r).mmFeatures[i]?.map MultiModalFeatureSpec.identifier

theorem mem_workerCache {s : Scheduler} {o : SchedulerOutput} {w inputs} {reqId : ReqId} {r : Ref}
    {i : Nat} {f : MultiModalFeatureSpec} (hget : o.scheduledEncoderInputs.get? reqId = some inputs)
    (hi : i ∈ inputs) (hr : s.requests.get? reqId = some r)
    (hf : (s.objs r).mmFeatures[i]? = some f) : f.identifier ∈ workerCache s o w := by
  refine List.mem_append_right _ (List.mem_flatMap.mpr ⟨(reqId, inputs), ?_, ?_⟩)
  · exact Dict.get?_eq_some.mp hget
  · dsimp only
    rw [hr]
    exact List.mem_filterMap.mpr ⟨i, hi, by rw [hf]; rfl⟩

namespace Scheduler

variable {c : SchedulerConfig} {env : Outside} {s s' : Scheduler}

theorem schedule_encoder {o : SchedulerOutput} {w : List String} (hk : s.ledger.Kept s.queued)
    (hload : c.hasConnector = true → s.ledger.Exact s.queued)
    (henv : env.hasCacheItem = fun _ => false)
    (hun : ∀ st, Step.scheduleRequests c env s = .ok st → ∀ x ∈ st.unscheduled, x.2 = [])
    (hd : s.encoderCacheManager.isEncoderDecoder = false)
    (hfreed : s.encoderCacheManager.freed = [])
    (hcached : ∀ h, s.encoderCacheManager.cached.contains h = true → h ∈ w)
    (h : schedule c env s = .ok (o, s')) :
    s'.encoderCacheManager.isEncoderDecoder = false ∧ s'.encoderCacheManager.freed = [] ∧
      ∀ h, s'.encoderCacheManager.cached.contains h = true → h ∈ workerCache s' o w := by
  simp only [schedule, Result.bind_eq_ok, Prod.exists] at h
  obtain ⟨st, hst, o₁, s₁, hout, h⟩ := h
  have hstart : (Step.start c s).queued = s.queued := Multiset.add_zero _
  have hmoves := Step.scheduleRequests_moves (Multiset.coe_nodup.mp hk.nodup) hst
  have hagrees : Step.Agrees w st := by
    refine Step.Moves.agrees hmoves (by rw [hstart]; exact hk) (by rw [hstart]; exact hload) henv
      (hun st hst) ⟨hd, fun x hx => .inl ⟨hcached x hx, ?_⟩, fun id inputs hget => ?_⟩
    · show x ∉ s.encoderCacheManager.freed
      rw [hfreed]
      exact List.not_mem_nil
    · cases hget
  obtain ⟨⟨kv, rfl⟩, -, -, hinputs₁, hfreed₁⟩ := Step.makeOutput_eq_ok hout
  obtain ⟨hrel, hsteady, hinputs, hfreed'⟩ := updateAfterSchedule_encoder h
  have hdec := hagrees.decoderOnly
  have htake : st.sched.encoderCacheManager.getFreedMmHashes =
      (st.sched.encoderCacheManager.freed, { st.sched.encoderCacheManager with freed := [] }) := by
    unfold getFreedMmHashes
    rw [if_neg (by simp [hdec])]
  unfold Releases at hrel
  dsimp only at hrel
  rw [htake] at hrel hfreed₁
  refine ⟨hrel.same.trans hdec, hrel.freed, fun x hx => ?_⟩
  rcases hagrees.cached x (hrel.cached x hx) with ⟨hw, hnot⟩ | ⟨id, inputs, r, i, f, hget, hi, hr, hf, rfl⟩
  · refine List.mem_append_left _ (List.mem_filter.mpr ⟨hw, ?_⟩)
    rw [hfreed', hfreed₁]
    simpa using hnot
  · refine @mem_workerCache _ _ _ inputs id r i _ ?_ hi ?_ ?_
    · rw [hinputs, hinputs₁]
      exact hget
    · rw [hsteady.requests]
      exact hr
    · rw [hsteady.features]
      exact hf

end Scheduler

/-! The engine together with the encoder cache of its worker. -/

structure Serving where
  engine : Engine
  worker : List String := []

def EngineOp.NoECConnector : EngineOp → Prop
  | .schedule env => env.hasCacheItem = fun _ => false
  | _ => True

/-- The call preempts no request for which it has scheduled encoder inputs. -/
def EngineOp.KeepsInputs (c : SchedulerConfig) (e : Engine) : EngineOp → Prop
  | .schedule env =>
    match Step.scheduleRequests c env e.sched with
    | .ok st => ∀ x ∈ st.unscheduled, x.2 = []
    | .error _ => True
  | _ => True

instance EngineOp.KeepsInputs.decidable {c : SchedulerConfig} (e : Engine) :
    ∀ op : EngineOp, Decidable (op.KeepsInputs c e)
  | .schedule env =>
    match h : Step.scheduleRequests c env e.sched with
    | .ok st =>
      decidable_of_iff (∀ x ∈ st.unscheduled, x.2 = []) (by simp only [EngineOp.KeepsInputs, h])
    | .error _ => isTrue (by simp only [EngineOp.KeepsInputs, h])
  | .addRequest .. => isTrue trivial
  | .updateFromOutput .. => isTrue trivial
  | .finishRequests .. => isTrue trivial
  | .resetPrefixCache _ => isTrue trivial
  | .setPauseState _ => isTrue trivial

namespace Serving

variable {c : SchedulerConfig} {v v' : Serving}

def init (c : SchedulerConfig) : Serving := { engine := Engine.init c }

def step (c : SchedulerConfig) (v : Serving) (op : EngineOp) : Result Serving := do
  let engine ← v.engine.step c op
  match op, engine.inFlight.getLast? with
  | .schedule _, some o => return { engine, worker := workerCache engine.sched o v.worker }
  | _, _ => return { v with engine }

/-- The worker has every encoder output that the scheduler takes for cached. -/
structure EncoderAgrees (v : Serving) : Prop where
  cached : ∀ h, v.engine.sched.encoderCacheManager.cached.contains h = true → h ∈ v.worker
  hit : ∀ request h e,
    v.engine.sched.encoderCacheManager.checkAndUpdateCache request h = .ok (true, e) → h ∈ v.worker

structure Synced (c : SchedulerConfig) (v : Serving) : Prop where
  kept : v.engine.sched.ledger.Kept v.engine.sched.queued
  exact : c.hasConnector = true → v.engine.sched.ledger.Exact v.engine.sched.queued
  decoderOnly : v.engine.sched.encoderCacheManager.isEncoderDecoder = false
  freed : v.engine.sched.encoderCacheManager.freed = []
  cached : ∀ h, v.engine.sched.encoderCacheManager.cached.contains h = true → h ∈ v.worker

theorem Synced.encoderAgrees (h : v.Synced c) : v.EncoderAgrees where
  cached := h.cached
  hit request x e hhit := by
    refine h.cached x ?_
    unfold checkAndUpdateCache at hhit
    rw [if_neg (by simp [h.decoderOnly])] at hhit
    split at hhit
    · cases hhit
    · rename_i hget
      exact contains_of_get? hget
    · rename_i hget
      exact contains_of_get? hget

theorem init_synced (hd : c.isEncoderDecoder = false) : (init c).Synced c where
  kept := Engine.init_booked.kept
  exact _ := Engine.init_booked.exact
  decoderOnly := hd
  freed := rfl
  cached h hh := by cases hh

theorem Synced.of_releases {e : Engine} (h : v.Synced c)
    (hbooks : e.sched.ledger.Kept e.sched.queued ∧
      (c.hasConnector = true → e.sched.ledger.Exact e.sched.queued))
    (hrel : v.engine.sched.Releases e.sched) : Synced c { v with engine := e } where
  kept := hbooks.1
  exact := hbooks.2
  decoderOnly := hrel.same.trans h.decoderOnly
  freed := hrel.freed.trans h.freed
  cached x hx := h.cached x (hrel.cached x hx)

theorem Synced.follows {e : Engine} (h : v.Synced c)
    (hf : Ledger.Follows v.engine.sched.ledger v.engine.sched.queued e.sched.ledger e.sched.queued) :
    e.sched.ledger.Kept e.sched.queued ∧
      (c.hasConnector = true → e.sched.ledger.Exact e.sched.queued) :=
  ⟨hf.1, fun hc => hf.2 (h.exact hc)⟩

theorem Synced.schedule {env : Outside} (h : v.Synced c)
    (hec : (EngineOp.schedule env).NoECConnector)
    (hop : (EngineOp.schedule env).KeepsInputs c v.engine)
    (hstep : v.step c (.schedule env) = .ok v') : v'.Synced c := by
  simp only [step, Engine.step, Result.bind_eq_ok, Prod.exists, Result.pure_eq_ok] at hstep
  obtain ⟨e, ⟨o, s, hs, rfl⟩, hstep⟩ := hstep
  simp only [List.getLast?_append, List.getLast?_singleton, Option.some_or, Result.pure_eq_ok] at hstep
  subst hstep
  have hun : ∀ st, Step.scheduleRequests c env v.engine.sched = .ok st →
      ∀ x ∈ st.unscheduled, x.2 = [] := by
    intro st hst
    simp only [EngineOp.KeepsInputs, hst] at hop
    exact hop
  obtain ⟨hd, hfreed, hcached⟩ := Scheduler.schedule_encoder h.kept h.exact hec hun h.decoderOnly
    h.freed h.cached hs
  have hbooks := Scheduler.schedule_books h.kept h.exact hs
  exact ⟨hbooks.1, fun hc => hbooks.2 (h.exact hc), hd, hfreed, hcached⟩

theorem Synced.step {op : EngineOp} (h : v.Synced c) (hec : op.NoECConnector)
    (hop : op.KeepsInputs c v.engine) (hstops : c.hasConnector = true → op.StopsInWaiting c v.engine)
    (hstep : v.step c op = .ok v') : v'.Synced c := by
  cases op with
  | schedule env => exact h.schedule hec hop hstep
  | addRequest env params =>
    simp only [Serving.step, Engine.step, Result.bind_eq_ok, Result.pure_eq_ok] at hstep
    obtain ⟨e, ⟨s, hs, rfl⟩, rfl⟩ := hstep
    exact h.of_releases (h.follows (Scheduler.addRequest_books h.kept hs))
      (Scheduler.addRequest_releases hs)
  | updateFromOutput env m =>
    simp only [Serving.step, Result.bind_eq_ok, Result.pure_eq_ok] at hstep
    obtain ⟨e, he, rfl⟩ := hstep
    obtain ⟨o, rest, outputs, s, hflight, hs, rfl⟩ := Engine.step_updateFromOutput he
    obtain ⟨hkept, hexact⟩ := Scheduler.updateFromOutput_books h.kept hs
    refine h.of_releases ⟨hkept, fun hc => hexact (h.exact hc) ?_⟩
      (Scheduler.updateFromOutput_releases hs)
    exact Engine.Booked.allStopInWaiting ⟨h.kept, h.exact hc⟩ hflight (hstops hc)
  | finishRequests env ids status =>
    simp only [Serving.step, Engine.step, Result.bind_eq_ok, Result.pure_eq_ok] at hstep
    obtain ⟨e, ⟨s, hs, rfl⟩, rfl⟩ := hstep
    exact h.of_releases (h.follows (Scheduler.finishRequests_books h.kept hs))
      (Scheduler.finishRequests_releases hs)
  | resetPrefixCache reset =>
    simp only [Serving.step, Engine.step, Result.bind_eq_ok, Prod.exists, Result.pure_eq_ok] at hstep
    obtain ⟨e, ⟨success, s, hs, rfl⟩, rfl⟩ := hstep
    exact h.of_releases (h.follows (Scheduler.resetPrefixCache_books h.kept hs))
      (Scheduler.resetPrefixCache_releases hs)
  | setPauseState p =>
    simp only [Serving.step, Engine.step, Result.bind_eq_ok, Result.pure_eq_ok] at hstep
    obtain ⟨e, he, rfl⟩ := hstep
    cases he
    exact h.of_releases ⟨h.kept, h.exact⟩ (.refl _)

end Serving

/-- In every run in which `schedule()` never preempts a request whose encoder inputs it has just
scheduled, the worker has everything that is cached. -/
theorem encoderAgrees_of_keepsInputs (c : SchedulerConfig) (hd : c.isEncoderDecoder = false)
    (ops : List EngineOp) (hec : ∀ op ∈ ops, op.NoECConnector)
    (h : Guarded (Serving.step c) (fun v op => op.KeepsInputs c v.engine ∧
      (c.hasConnector = true → op.StopsInWaiting c v.engine)) (Serving.init c) ops) :
    Throughout (Serving.step c) Serving.EncoderAgrees (Serving.init c) ops :=
  throughout_of_inv (fun _ _ _ hs hop hstep => hs.step hop.1 hop.2.1 hop.2.2 hstep)
    (fun _ hs => hs.encoderAgrees) (Serving.init_synced hd) (h.and_mem hec)

/-! Two requests under the priority policy: the second one is more urgent. -/

def urgent (numGpuBlocks : Nat) : SchedulerConfig where
  kv := { onePool with numGpuBlocks }
  policy := .priority
  maxNumRunningReqs := 2
  maxNumScheduledTokens := 8
  longPrefillTokenThreshold := 1
  maxNumEncoderInputTokens := 8
  encoderCacheSize := 8

def withImage : RequestParams where
  requestId := "b"
  promptTokenIds := some [1, 2, 3]
  samplingParams := some { maxTokens := 4 }
  priority := 1
  mmFeatures := [⟨"x", ⟨2, 1, none⟩⟩]

def plain : RequestParams where
  requestId := "a"
  promptTokenIds := some [4, 5]
  samplingParams := some { maxTokens := 4 }

/-- In its third step the request with the image needs the encoder. -/
def threeSteps : List EngineOp :=
  [.addRequest {} withImage, .schedule {}, .updateFromOutput {} { sampledTokenIds := fun _ => [] },
   .addRequest {} plain, .schedule {}, .updateFromOutput {} { sampledTokenIds := fun _ => [] },
   .schedule {}]

theorem encoderAgrees_threeSteps : Throughout (Serving.step (urgent 8)) Serving.EncoderAgrees
    (Serving.init (urgent 8)) threeSteps := by
  refine encoderAgrees_of_keepsInputs (urgent 8) rfl threeSteps ?_ (by decide +kernel)
  intro op hop
  simp only [threeSteps, List.mem_cons, List.not_mem_nil, or_false] at hop
  rcases hop with rfl | rfl | rfl | rfl | rfl | rfl | rfl <;> trivial

/-- With fewer blocks the third call preempts it after scheduling its image. -/
theorem not_encoderAgrees_threeSteps :
    ¬ Throughout (Serving.step (urgent 5)) Serving.EncoderAgrees (Serving.init (urgent 5))
      threeSteps ∧
    ∃ v, runSteps (Serving.step (urgent 5)) (Serving.init (urgent 5)) threeSteps = .ok v ∧
      v.engine.sched.encoderCacheManager.cached.contains "x" = true ∧ v.worker = [] := by
  obtain ⟨v, hrun, hv⟩ := Result.exists_of_holds
    (x := runSteps (Serving.step (urgent 5)) (Serving.init (urgent 5)) threeSteps)
    (p := fun v => v.engine.sched.encoderCacheManager.cached.contains "x" = true ∧ v.worker = [])
    (by decide +kernel)
  rw [decide_eq_true_eq] at hv
  refine ⟨fun h => ?_, v, hrun, hv⟩
  have hmem := (h.last hrun).cached "x" hv.1
  rw [hv.2] at hmem
  cases hmem

end Vllm
