import Vllm.SchedulerUpdate

namespace Vllm

variable {c : SchedulerConfig} {env : Outside}

theorem checkStop_cases {maxModelLen : Nat} {q q' : Request} {stopped : Bool}
    (h : checkStop maxModelLen q = .ok (stopped, q')) :
    (stopped = false ∧ q' = q) ∨
      (stopped = true ∧ ∃ status reason, status.isFinished = true ∧
        q' = { q with status := status, stopReason := reason }) := by
  simp only [checkStop, Result.bind_eq_ok, Result.ensure_eq_ok] at h
  obtain ⟨-, -, h⟩ := h
  split at h
  · cases h
  · split at h
    · cases h
      exact .inl ⟨rfl, rfl⟩
    · split at h
      · cases h
      · split at h
        · cases h
          exact .inr ⟨rfl, .finishedStopped, q.stopReason, rfl, rfl⟩
        · split at h
          · cases h
            exact .inr ⟨rfl, .finishedStopped, _, rfl, rfl⟩
          · split at h
            · cases h
              exact .inr ⟨rfl, .finishedLengthCapped, q.stopReason, rfl, rfl⟩
            · split at h
              · cases h
                exact .inl ⟨rfl, rfl⟩
              · split at h
                · cases h
                  exact .inr ⟨rfl, .finishedRepetition, _, rfl, rfl⟩
                · cases h
                  exact .inl ⟨rfl, rfl⟩

theorem Request.appendOutputTokenIds_frame (hasher : Option BlockHasher) (q : Request)
    (tokenIds : List Token) :
    ∃ hashes, q.appendOutputTokenIds hasher tokenIds =
      { q with
        outputTokenIds := q.outputTokenIds ++ tokenIds
        allTokenIds := q.allTokenIds ++ tokenIds
        blockHashes := hashes } := by
  unfold Request.appendOutputTokenIds Request.updateBlockHashes
  split
  · exact ⟨q.blockHashes, rfl⟩
  · exact ⟨_, rfl⟩

theorem appendUntilStop_cases {tokenIds kept : List Token} {q q' : Request} {stopped : Bool}
    (h : appendUntilStop c tokenIds q = .ok (kept, stopped, q')) :
    ∃ status reason hashes,
      q' = { q with
        status := status
        stopReason := reason
        outputTokenIds := q.outputTokenIds ++ kept
        allTokenIds := q.allTokenIds ++ kept
        blockHashes := hashes } ∧
      kept <+: tokenIds ∧
      ((stopped = false ∧ status = q.status ∧ kept = tokenIds) ∨
        (stopped = true ∧ status.isFinished = true ∧ kept ≠ [])) := by
  induction tokenIds generalizing q kept stopped with
  | nil =>
    cases h
    refine ⟨q'.status, q'.stopReason, q'.blockHashes, ?_, List.prefix_refl [], .inl ⟨rfl, rfl, rfl⟩⟩
    simp
  | cons t tokenIds ih =>
    simp only [appendUntilStop, Result.bind_eq_ok, Prod.exists] at h
    obtain ⟨stop, q₁, hcheck, h⟩ := h
    obtain ⟨hashes₁, happend⟩ := q.appendOutputTokenIds_frame c.blockHasher [t]
    rw [happend] at hcheck
    rcases checkStop_cases hcheck with ⟨rfl, rfl⟩ | ⟨rfl, status, reason, hfin, rfl⟩
    · simp only [Bool.false_eq_true, if_false, Result.bind_eq_ok, Prod.exists, Result.pure_eq_ok,
        Prod.mk.injEq] at h
      obtain ⟨kept₁, stopped₁, q₂, hrest, rfl, rfl, rfl⟩ := h
      obtain ⟨status, reason, hashes, rfl, hpre, hcase⟩ := ih hrest
      refine ⟨status, reason, hashes, ?_, (List.prefix_cons_inj t).mpr hpre, ?_⟩
      · simp
      · rcases hcase with ⟨hs, hst, rfl⟩ | ⟨hs, hfin, -⟩
        · exact .inl ⟨hs, hst, rfl⟩
        · exact .inr ⟨hs, hfin, List.cons_ne_nil t kept₁⟩
    · cases h
      exact ⟨status, reason, hashes₁, rfl, List.cons_prefix_cons.mpr ⟨rfl, List.nil_prefix⟩,
        .inr ⟨rfl, hfin, List.cons_ne_nil t []⟩⟩

def Request.stopView (q : Request) :
    Option PoolingParams × Option SamplingParams × List Token × Nat × Nat :=
  (q.poolingParams, q.samplingParams, q.outputTokenIds, q.numTokens, q.maxTokens)

theorem checkStop_congr {maxModelLen : Nat} {a a' b : Request} {stopped : Bool}
    (hview : a.stopView = b.stopView) (h : checkStop maxModelLen a = .ok (stopped, a')) :
    ∃ b', checkStop maxModelLen b = .ok (stopped, b') := by
  simp only [Request.stopView, Prod.mk.injEq] at hview
  obtain ⟨hpool, hsamp, hout, hlen, hmax⟩ := hview
  unfold checkStop Request.numOutputTokens at h ⊢
  rw [hpool, hsamp, hout, hlen, hmax] at h
  simp only [Result.bind_eq_ok, Result.ensure_eq_ok] at h ⊢
  obtain ⟨u, hu, h⟩ := h
  split at h
  · cases h
  · rename_i params _
    simp only [exists_const, hu, true_and]
    repeat' split at h
    all_goals cases h
    all_goals simp [*]

theorem appendUntilStop_congr {tokenIds kept : List Token} {a a' b : Request} {stopped : Bool}
    (hview : a.stopView = b.stopView) (h : appendUntilStop c tokenIds a = .ok (kept, stopped, a')) :
    ∃ b', appendUntilStop c tokenIds b = .ok (kept, stopped, b') := by
  induction tokenIds generalizing a b kept stopped with
  | nil =>
    cases h
    exact ⟨b, rfl⟩
  | cons t tokenIds ih =>
    simp only [appendUntilStop, Result.bind_eq_ok, Prod.exists] at h
    obtain ⟨stop, a₁, hcheck, h⟩ := h
    have hview₁ : (a.appendOutputTokenIds c.blockHasher [t]).stopView =
        (b.appendOutputTokenIds c.blockHasher [t]).stopView := by
      obtain ⟨hashes, ha⟩ := a.appendOutputTokenIds_frame c.blockHasher [t]
      obtain ⟨hashes', hb⟩ := b.appendOutputTokenIds_frame c.blockHasher [t]
      simp only [Request.stopView, Request.numTokens, Prod.mk.injEq] at hview
      obtain ⟨hpool, hsamp, hout, hlen, hmax⟩ := hview
      rw [ha, hb]
      simp only [Request.stopView, Request.numTokens, List.length_append, hpool, hsamp, hout, hlen,
        hmax]
    obtain ⟨b₁, hcheck'⟩ := checkStop_congr hview₁ hcheck
    cases stop with
    | true =>
      cases h
      exact ⟨b₁, by simp [appendUntilStop, hcheck', bind, Except.bind, pure, Except.pure]⟩
    | false =>
      simp only [Bool.false_eq_true, if_false, Result.bind_eq_ok, Prod.exists, Result.pure_eq_ok,
        Prod.mk.injEq] at h
      obtain ⟨kept₁, stopped₁, a₂, hrest, rfl, rfl, rfl⟩ := h
      have ha₁ : a₁.stopView = b₁.stopView := by
        rcases checkStop_cases hcheck with ⟨-, rfl⟩ | ⟨h, -⟩
        · rcases checkStop_cases hcheck' with ⟨-, rfl⟩ | ⟨h, -⟩
          · exact hview₁
          · cases h
        · cases h
      obtain ⟨b₂, hrest'⟩ := ih ha₁ hrest
      exact ⟨b₂, by simp [appendUntilStop, hcheck', hrest', bind, Except.bind, pure, Except.pure]⟩

def stops (c : SchedulerConfig) (request : Request) (generated : List Token) (pooled : Bool) : Bool :=
  if generated ≠ [] then
    !(c.asyncScheduling && request.discardLatestAsyncTokens) &&
      Result.holds (appendUntilStop c generated request) fun x => x.2.1
  else request.poolingParams.isSome && pooled

theorem stops_congr {a b : Request} {generated : List Token} {pooled : Bool}
    (hview : a.stopView = b.stopView)
    (hdiscard : a.discardLatestAsyncTokens = b.discardLatestAsyncTokens)
    (h : stops c a generated pooled = true) : stops c b generated pooled = true := by
  have hpool : a.poolingParams = b.poolingParams := congrArg Prod.fst hview
  unfold stops at h ⊢
  split at h
  · rename_i hne
    rw [if_pos hne]
    rw [Bool.and_eq_true] at h ⊢
    obtain ⟨⟨kept, stopped, a'⟩, ha, hstop⟩ := Result.exists_of_holds h.2
    obtain ⟨b', hb⟩ := appendUntilStop_congr hview ha
    rw [← hdiscard, hb]
    exact ⟨h.1, hstop⟩
  · rename_i hne
    rw [if_neg hne, ← hpool]
    exact h

inductive OutputStep (c : SchedulerConfig) (q : Request) (generated : List Token) (pooled : Bool) :
    List Token → Bool → Request → Prop
  | discard : generated ≠ [] → c.asyncScheduling = true → q.discardLatestAsyncTokens = true →
      OutputStep c q generated pooled [] false { q with discardLatestAsyncTokens := false }
  | appendAsync {kept : List Token} {stopped : Bool} {q' : Request} : generated ≠ [] →
      c.asyncScheduling = true → q.discardLatestAsyncTokens = false →
      appendUntilStop c generated q = .ok (kept, stopped, q') →
      0 ≤ q'.numOutputPlaceholders - kept.length →
      OutputStep c q generated pooled kept stopped
        { q' with numOutputPlaceholders := q'.numOutputPlaceholders - kept.length }
  | appendSync {kept : List Token} {stopped : Bool} {q' : Request} : generated ≠ [] →
      c.asyncScheduling = false → appendUntilStop c generated q = .ok (kept, stopped, q') →
      OutputStep c q generated pooled kept stopped q'
  | pool : generated = [] → q.poolingParams.isSome = true → pooled = true →
      OutputStep c q generated pooled [] true { q with status := .finishedStopped }
  | idle : generated = [] → (q.poolingParams.isSome && pooled) = false →
      OutputStep c q generated pooled [] false q

namespace OutputStep

variable {q q' : Request} {generated kept : List Token} {pooled stopped : Bool}

theorem frame (h : OutputStep c q generated pooled kept stopped q') :
    q'.requestId = q.requestId ∧ q'.resumable = q.resumable ∧
      q'.streamingQueue = q.streamingQueue ∧
      ((stopped = false ∧ q'.status = q.status) ∨ (stopped = true ∧ q'.isFinished = true)) := by
  cases h with
  | discard => exact ⟨rfl, rfl, rfl, .inl ⟨rfl, rfl⟩⟩
  | appendAsync _ _ _ happend =>
    obtain ⟨status, reason, hashes, rfl, -, hcase⟩ := appendUntilStop_cases happend
    refine ⟨rfl, rfl, rfl, hcase.imp (fun h => ⟨h.1, h.2.1⟩) fun h => ⟨h.1, h.2.1⟩⟩
  | appendSync _ _ happend =>
    obtain ⟨status, reason, hashes, rfl, -, hcase⟩ := appendUntilStop_cases happend
    refine ⟨rfl, rfl, rfl, hcase.imp (fun h => ⟨h.1, h.2.1⟩) fun h => ⟨h.1, h.2.1⟩⟩
  | pool => exact ⟨rfl, rfl, rfl, .inr ⟨rfl, rfl⟩⟩
  | idle => exact ⟨rfl, rfl, rfl, .inl ⟨rfl, rfl⟩⟩

theorem stops_of_stopped {q₀ : Request} (h : OutputStep c q generated pooled kept true q')
    (hview : q.stopView = q₀.stopView)
    (hdiscard : q.discardLatestAsyncTokens = q₀.discardLatestAsyncTokens) :
    stops c q₀ generated pooled = true := by
  cases h with
  | appendAsync hne hasync hd happend =>
    obtain ⟨q₁, h₁⟩ := appendUntilStop_congr hview happend
    simp [stops, hne, h₁, Result.holds, ← hdiscard, hd]
  | appendSync hne hasync happend =>
    obtain ⟨q₁, h₁⟩ := appendUntilStop_congr hview happend
    simp [stops, hne, h₁, Result.holds, hasync]
  | pool hnil hpool hpooled =>
    have hparams : q.poolingParams = q₀.poolingParams := congrArg Prod.fst hview
    simp [stops, hnil, ← hparams, hpool, hpooled]

end OutputStep

namespace Scheduler

variable {s s' : Scheduler} {r : Ref}

theorem applyOutput_eq_ok {generated kept : List Token} {pooled stopped : Bool}
    (h : applyOutput c s r generated pooled = .ok (kept, stopped, s')) :
    ∃ q' kv, s' = { s with objs := Function.update s.objs r q', kvCacheManager := kv } ∧
      OutputStep c (s.objs r) generated pooled kept stopped q' ∧
      (kv = s.kvCacheManager ∨ (c.asyncScheduling = true ∧ (s.objs r).status = .running ∧
        s.kvCacheManager.cacheBlocks c.kv q'
          (q'.numComputedTokens - q'.numOutputPlaceholders) = .ok kv)) := by
  unfold applyOutput at h
  split at h
  · rename_i hne
    unfold updateRequestWithOutput at h
    dsimp only at h
    split at h
    · rename_i hasync
      split at h
      · rename_i hd
        cases h
        exact ⟨_, s.kvCacheManager, rfl, .discard hne hasync hd, .inl rfl⟩
      · rename_i hd
        simp only [Result.bind_eq_ok, Prod.exists, Result.ensure_eq_ok] at h
        obtain ⟨kept₁, stopped₁, q', happend, -, hpos, h⟩ := h
        have hstep := @OutputStep.appendAsync _ _ _ pooled _ _ _ hne hasync (by simpa using hd)
          happend hpos
        split at h
        · rename_i hrun
          simp only [Result.bind_eq_ok, Result.pure_eq_ok, Prod.mk.injEq] at h
          obtain ⟨kv, hkv, rfl, rfl, rfl⟩ := h
          exact ⟨_, kv, rfl, hstep, .inr ⟨hasync, hrun, hkv⟩⟩
        · cases h
          exact ⟨_, s.kvCacheManager, rfl, hstep, .inl rfl⟩
    · rename_i hasync
      simp only [Result.bind_eq_ok, Prod.exists, Result.pure_eq_ok, Prod.mk.injEq] at h
      obtain ⟨kept₁, stopped₁, q', happend, rfl, rfl, rfl⟩ := h
      exact ⟨q', s.kvCacheManager, rfl, .appendSync hne (by simpa using hasync) happend, .inl rfl⟩
  · rename_i hne
    have hnil : generated = [] := by simpa using hne
    split at h
    · rename_i hpool
      cases h
      rw [Bool.and_eq_true] at hpool
      exact ⟨_, s.kvCacheManager, rfl, .pool hnil hpool.1 hpool.2, .inl rfl⟩
    · rename_i hpool
      cases h
      refine ⟨s.objs r, s.kvCacheManager, ?_, .idle hnil (by simpa using hpool), .inl rfl⟩
      rw [Function.update_eq_self]

theorem updateAsSession_frame {hasher : Option BlockHasher} {q session : Request}
    {update : StreamingUpdate} (h : q.updateAsSession hasher update = some session) :
    session.requestId = q.requestId ∧ session.status = .waiting := by
  unfold Request.updateAsSession at h
  rw [Option.map_eq_some_iff] at h
  obtain ⟨promptTokenIds, -, rfl⟩ := h
  refine ⟨?_, rfl⟩
  unfold Request.updateBlockHashes
  split <;> rfl

theorem updateRequestAsSession_eq_ok {update : StreamingUpdate}
    (h : updateRequestAsSession c s r update = .ok s') :
    ∃ session, (s.objs r).updateAsSession c.blockHasher update = some session ∧
      ∃ n, s' = { s with
        objs := Function.update s.objs r session, numWaitingForStreamingInput := n } := by
  unfold updateRequestAsSession at h
  split at h
  · cases h
  · rename_i session hsession
    cases h
    exact ⟨session, hsession, _, rfl⟩

theorem handleStoppedRequest_cases {finished : Bool}
    (h : handleStoppedRequest c s r = .ok (finished, s')) :
    (finished = true ∧ (s' = s ∨ ∃ queue,
      s' = s.modify r fun q => { q with streamingQueue := some queue })) ∨
    (finished = false ∧ (s.objs r).resumable = true ∧ ∃ update queue session,
      (s.objs r).streamingQueue = some (some update :: queue) ∧
      { s.objs r with streamingQueue := some queue }.updateAsSession c.blockHasher update =
        some session ∧
      ∃ n, s' = enqueueWaitingRequest c
        { s with objs := Function.update s.objs r session, numWaitingForStreamingInput := n } r) ∨
    (finished = false ∧ (s.objs r).resumable = true ∧
      ((s.objs r).streamingQueue = none ∨ (s.objs r).streamingQueue = some []) ∧
      ∃ n, s' = enqueueWaitingRequest c
        { s.modify r (fun q => { q with status := .waitingForStreamingReq }) with
          numWaitingForStreamingInput := n } r) := by
  unfold handleStoppedRequest at h
  dsimp only at h
  split at h
  · cases h
    exact .inl ⟨rfl, .inl rfl⟩
  · rename_i hres
    have hres : (s.objs r).resumable = true := by simpa using hres
    split at h
    · rename_i update queue hq
      cases update with
      | none =>
        cases h
        exact .inl ⟨rfl, .inr ⟨queue, rfl⟩⟩
      | some update =>
        simp only [Result.bind_eq_ok, Result.pure_eq_ok, Prod.mk.injEq] at h
        obtain ⟨s₁, hs₁, rfl, rfl⟩ := h
        obtain ⟨session, hsession, n, rfl⟩ := updateRequestAsSession_eq_ok hs₁
        simp only [modify, Function.update_self] at hsession
        refine .inr (.inl ⟨rfl, hres, update, queue, session, hq, hsession, n, ?_⟩)
        simp only [modify, Function.update_idem]
    · rename_i hnone
      cases h
      refine .inr (.inr ⟨rfl, hres, ?_, _, rfl⟩)
      cases hsq : (s.objs r).streamingQueue with
      | none => exact .inl rfl
      | some l =>
        cases l with
        | nil => exact .inr rfl
        | cons u queue => exact absurd hsq (hnone u queue)

theorem freeRequest_eq_ok {delay : Bool} (h : freeRequest c env s r delay = .ok s') :
    (s.objs r).isFinished = true ∧ ∃ kv requests finishedReqIds,
      s' = { s with
        kvCacheManager := kv
        encoderCacheManager := s.encoderCacheManager.free (s.objs r)
        requests := requests
        finishedReqIds := finishedReqIds } ∧
      (requests = s.requests ∨ requests = s.requests.erase (s.objs r).requestId) ∧
      (c.hasConnector = false → delay = false →
        requests = s.requests.erase (s.objs r).requestId ∧
        kv = s.kvCacheManager.free (s.objs r).requestId) := by
  simp only [freeRequest, Result.bind_eq_ok, Prod.exists, Result.ensure_eq_ok] at h
  obtain ⟨-, hfin, connectorDelay, s₁, hconn, h⟩ := h
  have hs₁ : (∃ kv, s₁ = s.withKv kv) ∧
      (c.hasConnector = false → connectorDelay = false ∧ s₁ = s) := by
    unfold connectorFinished at hconn
    split at hconn
    · rename_i hc
      simp only [Result.bind_eq_ok, Result.pure_eq_ok, Prod.mk.injEq] at hconn
      obtain ⟨kv, -, -, rfl⟩ := hconn
      refine ⟨⟨kv, rfl⟩, fun h => ?_⟩
      rw [hc] at h
      cases h
    · cases hconn
      exact ⟨⟨s.kvCacheManager, rfl⟩, fun _ => ⟨rfl, rfl⟩⟩
  obtain ⟨⟨kv, rfl⟩, hsame⟩ := hs₁
  refine ⟨hfin, ?_⟩
  split at h
  · rename_i hdelay
    cases h
    refine ⟨kv, s.requests, _, rfl, .inl rfl, fun hc hd => ?_⟩
    rw [(hsame hc).1, hd] at hdelay
    cases hdelay
  · simp only [freeBlocks, Result.bind_eq_ok, Result.pure_eq_ok] at h
    obtain ⟨-, -, rfl⟩ := h
    refine ⟨_, _, _, rfl, .inr rfl, fun hc _ => ⟨rfl, ?_⟩⟩
    have hkv : kv = s.kvCacheManager := congrArg Scheduler.kvCacheManager (hsame hc).2
    rw [hkv]
    rfl

def afterDrafts (o : SchedulerOutput) (m : ModelRunnerOutput) (reqId : ReqId) (q : Request) :
    Request :=
  if 0 < (o.scheduledSpecDecodeTokens.getD reqId []).length ∧ m.sampledTokenIds reqId ≠ [] then
    rejectDrafts (o.scheduledSpecDecodeTokens.getD reqId []).length
      (m.sampledTokenIds reqId).length q
  else q

theorem afterDrafts_frame (o : SchedulerOutput) (m : ModelRunnerOutput) (reqId : ReqId)
    (q : Request) : ∃ computed placeholders, afterDrafts o m reqId q =
      { q with numComputedTokens := computed, numOutputPlaceholders := placeholders } := by
  unfold afterDrafts
  split
  · exact ⟨_, _, rfl⟩
  · exact ⟨q.numComputedTokens, q.numOutputPlaceholders, rfl⟩

def Settled (c : SchedulerConfig) (env : Outside) (s : Scheduler) (r : Ref) (s' : Scheduler) : Prop :=
  ∃ finished s₁, handleStoppedRequest c s r = .ok (finished, s₁) ∧
    ((finished = true ∧ freeRequest c env s₁ r false = .ok s') ∨ (finished = false ∧ s' = s₁))

variable {u u' : UpdateState} {o : SchedulerOutput} {m : ModelRunnerOutput} {reqId : ReqId}

theorem settleStopped_eq_ok {status : RequestStatus} (h : settleStopped c env u r status = .ok u') :
    Settled c env u.sched r u'.sched ∧ u'.outputs = u.outputs ∧
      ((status = .running ∧ u'.stoppedRunningReqs = u.stoppedRunningReqs.insert r ∧
          u'.stoppedPreemptedReqs = u.stoppedPreemptedReqs) ∨
        (status ≠ .running ∧ u'.stoppedRunningReqs = u.stoppedRunningReqs ∧
          u'.stoppedPreemptedReqs = u.stoppedPreemptedReqs.insert r)) := by
  simp only [settleStopped, Result.bind_eq_ok, Prod.exists] at h
  obtain ⟨finished, s₁, hstop, s₂, hfree, h⟩ := h
  have hsettled : Settled c env u.sched r s₂ := by
    refine ⟨finished, s₁, hstop, ?_⟩
    split at hfree
    · rename_i hf
      exact .inl ⟨hf, hfree⟩
    · rename_i hf
      cases hfree
      exact .inr ⟨by simpa using hf, rfl⟩
  split at h
  · rename_i hst
    cases h
    exact ⟨hsettled, rfl, .inl ⟨hst, rfl, rfl⟩⟩
  · rename_i hst
    cases h
    exact ⟨hsettled, rfl, .inr ⟨hst, rfl, rfl⟩⟩

theorem updateRequest_eq_ok (h : updateRequest c env o m u reqId r = .ok u') :
    ∃ kept stopped q kv,
      OutputStep c (afterDrafts o m reqId (u.sched.objs r)) (m.sampledTokenIds reqId)
        (m.hasPoolerOutput reqId) kept stopped q ∧
      (kv = u.sched.kvCacheManager ∨ (c.asyncScheduling = true ∧
        (u.sched.objs r).status = .running ∧
        u.sched.kvCacheManager.cacheBlocks c.kv q
          (q.numComputedTokens - q.numOutputPlaceholders) = .ok kv)) ∧
      (kept = [] ∧ u'.outputs = u.outputs ∨
        ∃ out, out.requestId = reqId ∧ out.newTokenIds = kept ∧ u'.outputs = u.outputs ++ [out]) ∧
      ((stopped = false ∧
          u'.sched = { u.sched with
            objs := Function.update u.sched.objs r q, kvCacheManager := kv } ∧
          u'.stoppedRunningReqs = u.stoppedRunningReqs ∧
          u'.stoppedPreemptedReqs = u.stoppedPreemptedReqs) ∨
        (stopped = true ∧
          Settled c env { u.sched with
            objs := Function.update u.sched.objs r q, kvCacheManager := kv } r u'.sched ∧
          (((u.sched.objs r).status = .running ∧
              u'.stoppedRunningReqs = u.stoppedRunningReqs.insert r ∧
              u'.stoppedPreemptedReqs = u.stoppedPreemptedReqs) ∨
            ((u.sched.objs r).status ≠ .running ∧
              u'.stoppedRunningReqs = u.stoppedRunningReqs ∧
              u'.stoppedPreemptedReqs = u.stoppedPreemptedReqs.insert r)))) := by
  unfold updateRequest at h
  dsimp only at h
  have hdrafts : (if 0 < (o.scheduledSpecDecodeTokens.getD reqId []).length ∧
        m.sampledTokenIds reqId ≠ [] then
      u.sched.modify r (rejectDrafts (o.scheduledSpecDecodeTokens.getD reqId []).length
        (m.sampledTokenIds reqId).length)
      else u.sched) = u.sched.modify r (afterDrafts o m reqId) := by
    unfold afterDrafts
    split
    · rfl
    · unfold modify
      rw [Function.update_eq_self]
  rw [hdrafts] at h
  simp only [Result.bind_eq_ok, Prod.exists] at h
  obtain ⟨kept, stopped, s₁, happly, u₁, hsettle, h⟩ := h
  obtain ⟨q, kv, rfl, hstep, hkv⟩ := applyOutput_eq_ok happly
  have hobj : (u.sched.modify r (afterDrafts o m reqId)).objs r =
      afterDrafts o m reqId (u.sched.objs r) := Function.update_self ..
  obtain ⟨computed, placeholders, hframe⟩ := afterDrafts_frame o m reqId (u.sched.objs r)
  have hstatus : ((u.sched.modify r (afterDrafts o m reqId)).objs r).status =
      (u.sched.objs r).status := by
    rw [hobj, hframe]
  have hidem : ({ u.sched.modify r (afterDrafts o m reqId) with
      objs := Function.update (u.sched.modify r (afterDrafts o m reqId)).objs r q
      kvCacheManager := kv } : Scheduler) =
      { u.sched with objs := Function.update u.sched.objs r q, kvCacheManager := kv } := by
    simp only [modify, Function.update_idem]
  rw [hstatus] at hkv hsettle
  rw [hobj] at hstep
  rw [hidem] at hsettle
  have hu' : u'.sched = u₁.sched ∧ u'.stoppedRunningReqs = u₁.stoppedRunningReqs ∧
      u'.stoppedPreemptedReqs = u₁.stoppedPreemptedReqs ∧
      (kept = [] ∧ u'.outputs = u₁.outputs ∨
        ∃ out, out.requestId = reqId ∧ out.newTokenIds = kept ∧ u'.outputs = u₁.outputs ++ [out]) := by
    split at h
    · cases h
      exact ⟨rfl, rfl, rfl, .inr ⟨_, rfl, rfl, rfl⟩⟩
    · rename_i hnone
      cases h
      refine ⟨rfl, rfl, rfl, .inl ⟨?_, rfl⟩⟩
      by_contra hne
      exact hnone (.inl hne)
  obtain ⟨hsched, hrunning, hpreempted, houtputs⟩ := hu'
  rw [hsched, hrunning, hpreempted]
  cases stopped with
  | false =>
    cases hsettle
    exact ⟨kept, false, q, kv, hstep, hkv, houtputs, .inl ⟨rfl, rfl, rfl, rfl⟩⟩
  | true =>
    obtain ⟨hsettled, hout, hsets⟩ := settleStopped_eq_ok hsettle
    rw [hout] at houtputs
    exact ⟨kept, true, q, kv, hstep, hkv, houtputs, .inr ⟨rfl, hsettled, hsets⟩⟩

theorem enqueueWaitingRequest_ready (h : isBlockedWaitingStatus (s.objs r).status = false) :
    enqueueWaitingRequest c s r =
      { s with waiting := RequestQueue.addRequest c.policy s.lt s.waiting r } :=
  if_neg (by simp [h])

theorem enqueueWaitingRequest_blocked (h : isBlockedWaitingStatus (s.objs r).status = true) :
    enqueueWaitingRequest c s r =
      { s with skippedWaiting := RequestQueue.addRequest c.policy s.lt s.skippedWaiting r } :=
  if_pos h

theorem Settled.cases (h : Settled c env s r s') (hfin : (s.objs r).isFinished = true) :
    ∃ q, s'.objs = Function.update s.objs r q ∧ q.requestId = (s.objs r).requestId ∧
      s'.nextRef = s.nextRef ∧ s'.running = s.running ∧
      ((q.isFinished = true ∧ s'.waiting = s.waiting ∧ s'.skippedWaiting = s.skippedWaiting ∧
          (s'.requests = s.requests ∨ s'.requests = s.requests.erase (s.objs r).requestId)) ∨
        (q.status = .waiting ∧ (s.objs r).resumable = true ∧
          (∃ update queue, (s.objs r).streamingQueue = some (some update :: queue)) ∧
          s'.waiting.Perm (r :: s.waiting) ∧ s'.skippedWaiting = s.skippedWaiting ∧
          s'.requests = s.requests) ∨
        (q.status = .waitingForStreamingReq ∧ s'.waiting = s.waiting ∧
          s'.skippedWaiting.Perm (r :: s.skippedWaiting) ∧ s'.requests = s.requests)) := by
  obtain ⟨finished, s₁, hstop, hcase⟩ := h
  rcases handleStoppedRequest_cases hstop with ⟨rfl, hs₁⟩ |
    ⟨rfl, hres, update, queue, session, hsq, hsession, n, rfl⟩ | ⟨rfl, hres, hsq, n, rfl⟩
  · obtain ⟨-, hfree⟩ := hcase.resolve_right fun h => by cases h.1
    obtain ⟨-, kv, requests, finishedReqIds, rfl, hreq, -⟩ := freeRequest_eq_ok hfree
    rcases hs₁ with rfl | ⟨queue, rfl⟩
    · exact ⟨s₁.objs r, (Function.update_eq_self r s₁.objs).symm, rfl, rfl, rfl,
        .inl ⟨hfin, rfl, rfl, hreq⟩⟩
    · refine ⟨_, rfl, rfl, rfl, rfl, .inl ⟨hfin, rfl, rfl, ?_⟩⟩
      simpa [modify] using hreq
  · obtain ⟨-, rfl⟩ := hcase.resolve_left fun h => by cases h.1
    obtain ⟨hid, hstatus⟩ := updateAsSession_frame hsession
    rw [enqueueWaitingRequest_ready (by simp only [Function.update_self, hstatus]; rfl)]
    exact ⟨session, rfl, hid, rfl, rfl, .inr (.inl ⟨hstatus, hres, ⟨update, queue, hsq⟩,
      RequestQueue.addRequest_perm _ r, rfl, rfl⟩)⟩
  · obtain ⟨-, rfl⟩ := hcase.resolve_left fun h => by cases h.1
    rw [enqueueWaitingRequest_blocked (by simp only [modify, Function.update_self]; rfl)]
    exact ⟨_, rfl, rfl, rfl, rfl, .inr (.inr ⟨rfl, rfl, RequestQueue.addRequest_perm _ r, rfl⟩)⟩

def SameButCounters (s s' : Scheduler) : Prop :=
  ∃ objs kv failed, s' = { s with
      objs := objs, kvCacheManager := kv, failedRecvingKvReqIds := failed } ∧
    ∀ r, ∃ computed external, objs r = { s.objs r with
      numComputedTokens := computed, numExternalComputedTokens := external }

theorem SameButCounters.refl (s : Scheduler) : SameButCounters s s :=
  ⟨s.objs, s.kvCacheManager, s.failedRecvingKvReqIds, rfl, fun r =>
    ⟨(s.objs r).numComputedTokens, (s.objs r).numExternalComputedTokens, rfl⟩⟩

theorem SameButCounters.trans {s₁ : Scheduler} (h : SameButCounters s s₁)
    (h' : SameButCounters s₁ s') : SameButCounters s s' := by
  obtain ⟨objs, kv, failed, rfl, hobjs⟩ := h
  obtain ⟨objs', kv', failed', rfl, hobjs'⟩ := h'
  refine ⟨objs', kv', failed', rfl, fun r => ?_⟩
  obtain ⟨a, b, hab⟩ := hobjs r
  obtain ⟨a', b', hab'⟩ := hobjs' r
  refine ⟨a', b', hab'.trans ?_⟩
  dsimp only
  rw [hab]

theorem sameButCounters_modify (s : Scheduler) (r : Ref) {f : Request → Request}
    (hf : ∃ computed external, f (s.objs r) = { s.objs r with
      numComputedTokens := computed, numExternalComputedTokens := external }) :
    SameButCounters s (s.modify r f) := by
  refine ⟨_, s.kvCacheManager, s.failedRecvingKvReqIds, rfl, fun x => ?_⟩
  by_cases hx : x = r
  · subst hx
    obtain ⟨a, b, hab⟩ := hf
    exact ⟨a, b, by rw [Function.update_self, hab]⟩
  · exact ⟨(s.objs x).numComputedTokens, (s.objs x).numExternalComputedTokens,
      by rw [Function.update_of_ne hx]⟩

theorem scanBlocks_counters {invalid reqBlockIds : List BlockId} {evict : Bool} {n : Int}
    {blocks : List (BlockId × Nat)} {affected marked affected' marked' : Bool}
    {scan scan' : InvalidScan}
    (h : scanBlocks c invalid evict r n reqBlockIds blocks affected marked scan =
      (affected', marked', scan')) : SameButCounters scan.sched scan'.sched := by
  induction blocks generalizing affected marked scan with
  | nil =>
    cases h
    exact .refl _
  | cons b blocks ih =>
    obtain ⟨blockId, idx⟩ := b
    unfold scanBlocks at h
    split at h
    · exact ih h
    · split at h
      · exact ih h
      · dsimp only at h
        have hrest := ih h
        cases marked with
        | true => exact hrest
        | false => exact (sameButCounters_modify scan.sched r ⟨_, _, rfl⟩).trans hrest

theorem scanRequest_counters {invalid : List BlockId} {evict : Bool} {scan scan' : InvalidScan}
    (h : scanRequest c invalid evict scan r = .ok scan') :
    SameButCounters scan.sched scan'.sched := by
  unfold scanRequest at h
  dsimp only at h
  split at h
  · rename_i reqBlockIds _
    generalize hscan : scanBlocks c invalid evict r _ reqBlockIds _ false false scan = res at h
    obtain ⟨affected, marked, scan₁⟩ := res
    have hcount := scanBlocks_counters hscan
    dsimp only at h
    split at h
    · cases h
      dsimp only
      split
      · exact hcount
      · exact hcount.trans (sameButCounters_modify scan₁.sched r ⟨_, _, rfl⟩)
    · cases h
      exact hcount
  · cases h

theorem scanRequests_counters {invalid : List BlockId} {evict : Bool} {refs : List Ref}
    {scan scan' : InvalidScan} (h : refs.foldlM (scanRequest c invalid evict) scan = .ok scan') :
    SameButCounters scan.sched scan'.sched := by
  induction refs generalizing scan with
  | nil =>
    cases h
    exact .refl _
  | cons r refs ih =>
    simp only [List.foldlM_cons, Result.bind_eq_ok] at h
    obtain ⟨scan₁, hscan, h⟩ := h
    exact (scanRequest_counters hscan).trans (ih h)

theorem failedLoads_counters {failed : List ReqId} (h : failedLoads c s m = .ok (failed, s')) :
    SameButCounters s s' := by
  unfold failedLoads at h
  split at h
  · cases h
    exact .refl _
  · split at h
    · cases h
      exact .refl _
    · simp only [handleInvalidBlocks, Result.bind_eq_ok] at h
      obtain ⟨asyncScan, hasync, syncScan, hsync, h⟩ := h
      have hfirst := scanRequests_counters hasync
      have hsecond := scanRequests_counters hsync
      have hcount : SameButCounters s syncScan.sched := hfirst.trans hsecond
      have hkv : ∀ (s : Scheduler) (kv : KVCacheManager) (failed : List ReqId),
          SameButCounters s { s with kvCacheManager := kv, failedRecvingKvReqIds := failed } :=
        fun s kv failed => ⟨s.objs, kv, failed, rfl, fun r =>
          ⟨(s.objs r).numComputedTokens, (s.objs r).numExternalComputedTokens, rfl⟩⟩
      split at h
      · cases h
        exact hcount
      · split at h
        · cases h
          exact hcount.trans (hkv _ _ _)
        · simp only [Result.bind_eq_ok, Result.pure_eq_ok, Prod.mk.injEq] at h
          obtain ⟨kv, -, -, rfl⟩ := h
          exact hcount.trans (hkv _ _ _)

end Scheduler

end Vllm
