import Vllm.AsyncTally
import Vllm.UpdateLoop

namespace Vllm

open Scheduler

variable {c : SchedulerConfig} {env : Outside} {o : SchedulerOutput} {m : ModelRunnerOutput}
  {id : ReqId} {r : Ref} {q : Request} {k : Mark} {ks : List Mark} {generated : List Token}
  {pooled : Bool}

def Request.Tallied (q : Request) (ks : List Mark) (id : ReqId) : Prop :=
  Tally ks id q.numOutputPlaceholders q.discardLatestAsyncTokens

structure Reported (k : Mark) (id : ReqId) (generated : List Token) (pooled : Bool) (q : Request) :
    Prop where
  bound : generated.length ≤ k.expected id
  some : k.expected id ≠ 0 → generated ≠ [] ∨ (q.poolingParams.isSome = true ∧ pooled = true)

structure SafeOutput (c : SchedulerConfig) (k : Mark) (id : ReqId) (generated : List Token)
    (pooled : Bool) (q : Request) : Prop where
  rejected : q.discardLatestAsyncTokens = true → generated ≠ [] →
    generated.length = k.expected id ∨ q.numOutputPlaceholders = 0
  whole : q.resumable = true → stops c q generated pooled = true →
    generated ≠ [] ∧ ∀ i, 0 < i → i < generated.length → stops c q (generated.take i) false = false

instance (k : Mark) (id : ReqId) (generated : List Token) (pooled : Bool) (q : Request) :
    Decidable (Reported k id generated pooled q) :=
  decidable_of_iff (generated.length ≤ k.expected id ∧
    (k.expected id ≠ 0 → generated ≠ [] ∨ (q.poolingParams.isSome = true ∧ pooled = true)))
    ⟨fun h => ⟨h.1, h.2⟩, fun h => ⟨h.bound, h.some⟩⟩

instance (k : Mark) (id : ReqId) (generated : List Token) (pooled : Bool) (q : Request) :
    Decidable (SafeOutput c k id generated pooled q) :=
  decidable_of_iff ((q.discardLatestAsyncTokens = true → generated ≠ [] →
      generated.length = k.expected id ∨ q.numOutputPlaceholders = 0) ∧
    (q.resumable = true → stops c q generated pooled = true → generated ≠ [] ∧
      ∀ i < generated.length, 0 < i → stops c q (generated.take i) false = false))
    ⟨fun h => ⟨h.1, fun hr hs => ⟨(h.2 hr hs).1, fun i hi hlt => (h.2 hr hs).2 i hlt hi⟩⟩,
      fun h => ⟨h.rejected, fun hr hs => ⟨(h.whole hr hs).1,
        fun i hlt hi => (h.whole hr hs).2 i hi hlt⟩⟩⟩

def Linked (o : SchedulerOutput) (k : Mark) : Prop :=
  ∀ id, k.expected id ≠ 0 → id ∈ o.numScheduledTokens.keys ∧
    k.expected id = 1 + (o.scheduledSpecDecodeTokens.getD id []).length

theorem Linked.afterDrafts (hlink : Linked o k) (hne : m.sampledTokenIds id ≠ [])
    (hle : (m.sampledTokenIds id).length ≤ k.expected id) :
    (afterDrafts o m id q).numOutputPlaceholders =
      if q.numOutputPlaceholders > 0 then
        q.numOutputPlaceholders - (k.expected id - (m.sampledTokenIds id).length)
      else q.numOutputPlaceholders := by
  have hpos : 0 < (m.sampledTokenIds id).length := List.length_pos_iff.mpr hne
  obtain ⟨-, hk⟩ := hlink id (by omega)
  unfold Scheduler.afterDrafts
  split
  · unfold rejectDrafts
    dsimp only
    congr 1
    rw [hk]
    push_cast
    omega
  · rename_i hnone
    have hzero : (o.scheduledSpecDecodeTokens.getD id []).length = 0 := by
      by_contra hd
      exact hnone ⟨Nat.pos_of_ne_zero hd, hne⟩
    rw [hzero] at hk
    split
    · omega
    · rfl

theorem appendUntilStop_kept {tokenIds kept : List Token} {q q' : Request}
    (h : appendUntilStop c tokenIds q = .ok (kept, true, q')) :
    appendUntilStop c kept q = .ok (kept, true, q') := by
  induction tokenIds generalizing q kept with
  | nil => cases h
  | cons t tokenIds ih =>
    simp only [appendUntilStop, Result.bind_eq_ok, Prod.exists] at h
    obtain ⟨stop, q₁, hcheck, h⟩ := h
    cases stop with
    | true =>
      cases h
      simp [appendUntilStop, hcheck, bind, Except.bind, pure, Except.pure]
    | false =>
      simp only [Bool.false_eq_true, if_false, Result.bind_eq_ok, Prod.exists, Result.pure_eq_ok,
        Prod.mk.injEq] at h
      obtain ⟨kept₁, stopped₁, q₂, hrest, rfl, rfl, rfl⟩ := h
      have hrest := ih hrest
      simp [appendUntilStop, hcheck, hrest, bind, Except.bind, pure, Except.pure]

theorem kept_whole {kept : List Token} {q₀ q' : Request}
    (h : appendUntilStop c generated q = .ok (kept, true, q'))
    (hview : q.stopView = q₀.stopView)
    (hdiscard : q.discardLatestAsyncTokens = q₀.discardLatestAsyncTokens)
    (hd : q.discardLatestAsyncTokens = false)
    (hwhole : ∀ i, 0 < i → i < generated.length → stops c q₀ (generated.take i) false = false) :
    kept.length = generated.length := by
  obtain ⟨status, reason, hashes, -, hpre, hcase⟩ := appendUntilStop_cases h
  have hne : kept ≠ [] := by
    rcases hcase with ⟨hs, -⟩ | ⟨-, -, hne⟩
    · cases hs
    · exact hne
  by_contra hlen
  have hlt : kept.length < generated.length := lt_of_le_of_ne hpre.length_le hlen
  have htake : generated.take kept.length = kept := (List.prefix_iff_eq_take.mp hpre).symm
  have hstop := hwhole kept.length (List.length_pos_iff.mpr hne) hlt
  rw [htake] at hstop
  obtain ⟨q₁, h₁⟩ := appendUntilStop_congr hview (appendUntilStop_kept h)
  simp [stops, hne, h₁, Result.holds, ← hdiscard, hd] at hstop

namespace Scheduler

variable {s s' : Scheduler}

theorem Settled.counters (h : Settled c env s r s') (hfin : (s.objs r).isFinished = true) :
    (s'.objs r).isFinished = true ∨ ((s.objs r).resumable = true ∧
      (s'.objs r).numOutputPlaceholders = (s.objs r).numOutputPlaceholders ∧
      (s'.objs r).discardLatestAsyncTokens = (s.objs r).discardLatestAsyncTokens) := by
  obtain ⟨finished, s₁, hstop, hcase⟩ := h
  have henqueue : ∀ s : Scheduler, (enqueueWaitingRequest c s r).objs = s.objs := by
    intro s
    unfold enqueueWaitingRequest
    split <;> rfl
  rcases handleStoppedRequest_cases hstop with ⟨rfl, hs₁⟩ |
    ⟨rfl, hres, update, queue, session, -, hsession, n, rfl⟩ | ⟨rfl, hres, -, n, rfl⟩
  · obtain ⟨-, hfree⟩ := hcase.resolve_right fun h => by cases h.1
    obtain ⟨-, kv, requests, ids, rfl, -⟩ := freeRequest_eq_ok hfree
    refine .inl ?_
    rcases hs₁ with rfl | ⟨queue, rfl⟩
    · exact hfin
    · simpa [modify, Request.isFinished] using hfin
  · obtain ⟨-, rfl⟩ := hcase.resolve_left fun h => by cases h.1
    refine .inr ⟨hres, ?_⟩
    rw [henqueue]
    dsimp only
    rw [Function.update_self]
    unfold Request.updateAsSession at hsession
    rw [Option.map_eq_some_iff] at hsession
    obtain ⟨promptTokenIds, -, rfl⟩ := hsession
    unfold Request.updateBlockHashes
    split
    · exact ⟨rfl, rfl⟩
    · exact ⟨rfl, rfl⟩
  · obtain ⟨-, rfl⟩ := hcase.resolve_left fun h => by cases h.1
    refine .inr ⟨hres, ?_⟩
    rw [henqueue]
    simp [modify]

end Scheduler

theorem OutputStep.tallied {kept : List Token} {stopped : Bool} {q' : Request}
    (h : OutputStep c (afterDrafts o m id q) (m.sampledTokenIds id) pooled kept stopped q')
    (hasync : c.asyncScheduling = true) (hlink : Linked o k)
    (hrep : Reported k id (m.sampledTokenIds id) pooled q)
    (hsafe : SafeOutput c k id (m.sampledTokenIds id) pooled q) (ht : q.Tallied (k :: ks) id)
    (hgoes : stopped = true → q.resumable = true) : q'.Tallied ks id := by
  obtain ⟨computed, placeholders, hframe⟩ := afterDrafts_frame o m id q
  have hdiscard : (afterDrafts o m id q).discardLatestAsyncTokens = q.discardLatestAsyncTokens := by
    rw [hframe]
  have hview : (afterDrafts o m id q).stopView = q.stopView := by
    rw [hframe]
    rfl
  have hyields : m.sampledTokenIds id ≠ [] → k.expected id ≠ 0 := by
    intro hne h0
    have hle := hrep.bound
    rw [h0] at hle
    exact hne (List.length_eq_zero_iff.mp (Nat.le_zero.mp hle))
  have hstops : stopped = true → stops c q (m.sampledTokenIds id) pooled = true := by
    intro hs
    subst hs
    exact h.stops_of_stopped hview hdiscard
  cases h with
  | discard hne _ hd =>
    rw [hdiscard] at hd
    unfold Request.Tallied at ht
    rw [hd] at ht
    obtain ⟨-, ht'⟩ := ht.drop (hyields hne)
    have hsame : (afterDrafts o m id q).numOutputPlaceholders = q.numOutputPlaceholders := by
      rw [hlink.afterDrafts hne hrep.bound]
      split
      · rcases hsafe.rejected hd hne with heq | h0
        · omega
        · omega
      · rfl
    unfold Request.Tallied
    dsimp only
    rw [hsame]
    exact ht'
  | appendAsync hne _ hd happend _ =>
    obtain ⟨status, reason, hashes, rfl, -, hcase⟩ := appendUntilStop_cases happend
    have hlen : kept.length = (m.sampledTokenIds id).length := by
      rcases hcase with ⟨-, -, rfl⟩ | ⟨rfl, -, -⟩
      · rfl
      · refine kept_whole happend hview hdiscard hd ?_
        exact (hsafe.whole (hgoes rfl) (hstops rfl)).2
    have hd' := hd
    rw [hdiscard] at hd'
    unfold Request.Tallied at ht
    rw [hd'] at ht
    obtain ⟨hfresh, ht'⟩ := ht.report (hyields hne)
    have hpending := ht'.pending
    have hpos : 0 < k.expected id := Nat.pos_of_ne_zero (hyields hne)
    unfold Request.Tallied
    dsimp only
    rw [hd, hlink.afterDrafts hne hrep.bound, if_pos (by omega), hlen]
    convert ht' using 1
    omega
  | appendSync _ hsync =>
    rw [hasync] at hsync
    cases hsync
  | pool hnil =>
    exact absurd hnil (hsafe.whole (hgoes rfl) (hstops rfl)).1
  | idle hnil hnone =>
    have hexpected : k.expected id = 0 := by
      by_contra hne
      rcases hrep.some hne with h | ⟨hp, hpooled⟩
      · exact h hnil
      · rw [hframe] at hnone
        simp [hp, hpooled] at hnone
    have hsame : afterDrafts o m id q = q := by
      unfold Scheduler.afterDrafts
      rw [if_neg]
      intro hand
      exact hand.2 hnil
    rw [hsame]
    exact (Tally.idle_iff hexpected).mp ht

namespace Scheduler

variable {u u' : UpdateState}

theorem updateRequest_tallied (hasync : c.asyncScheduling = true) (hlink : Linked o k)
    (hrep : Reported k id (m.sampledTokenIds id) (m.hasPoolerOutput id) (u.sched.objs r))
    (hsafe : SafeOutput c k id (m.sampledTokenIds id) (m.hasPoolerOutput id) (u.sched.objs r))
    (ht : (u.sched.objs r).Tallied (k :: ks) id)
    (h : updateRequest c env o m u id r = .ok u') :
    (u'.sched.objs r).isFinished = true ∨ (u'.sched.objs r).Tallied ks id := by
  obtain ⟨kept, stopped, q, kv, hstep, -, -, hcase⟩ := updateRequest_eq_ok h
  rcases hcase with ⟨rfl, hsched, -⟩ | ⟨rfl, hsettled, -⟩
  · right
    rw [hsched]
    dsimp only
    rw [Function.update_self]
    exact hstep.tallied hasync hlink hrep hsafe ht fun h => by cases h
  · have hobjq : ({ u.sched with
        objs := Function.update u.sched.objs r q, kvCacheManager := kv } : Scheduler).objs r = q :=
      Function.update_self ..
    obtain ⟨-, hres, -, hstatus⟩ := hstep.frame
    have hfin : q.isFinished = true := by
      rcases hstatus with ⟨h, -⟩ | ⟨-, h⟩
      · cases h
      · exact h
    rcases hsettled.counters (by rw [hobjq]; exact hfin) with hdone | ⟨hgoes, hn, hd⟩
    · exact .inl hdone
    · right
      rw [hobjq] at hgoes hn hd
      obtain ⟨computed, placeholders, hframe⟩ := afterDrafts_frame o m id (u.sched.objs r)
      rw [hframe] at hres
      unfold Request.Tallied
      rw [hn, hd]
      exact hstep.tallied hasync hlink hrep hsafe ht fun _ => hres.symm.trans hgoes

theorem updateRequest_placeholders (hlink : Linked o k)
    (hrep : Reported k id (m.sampledTokenIds id) (m.hasPoolerOutput id) q)
    (ht : q.Tallied (k :: ks) id) (hne : m.sampledTokenIds id ≠ [])
    (hd : q.discardLatestAsyncTokens = false) {kept : List Token} {stopped : Bool} {q' : Request}
    (h : appendUntilStop c (m.sampledTokenIds id) (afterDrafts o m id q) =
      .ok (kept, stopped, q')) : 0 ≤ q'.numOutputPlaceholders - kept.length := by
  obtain ⟨status, reason, hashes, rfl, hpre, -⟩ := appendUntilStop_cases h
  unfold Request.Tallied at ht
  rw [hd] at ht
  have hle := hrep.bound
  have hlen := hpre.length_le
  have hpos : 0 < (m.sampledTokenIds id).length := List.length_pos_iff.mpr hne
  obtain ⟨-, ht'⟩ := ht.report (by omega)
  have hpending := ht'.pending
  dsimp only
  rw [hlink.afterDrafts hne hle]
  split <;> omega

def AllTallied (s : Scheduler) (ks : List Mark) : Prop :=
  ∀ id r, s.requests.get? id = some r → (s.objs r).isFinished = false → (s.objs r).Tallied ks id

def ReportedAll (s : Scheduler) (o : SchedulerOutput) (k : Mark) (m : ModelRunnerOutput) : Prop :=
  ∀ id ∈ o.numScheduledTokens.keys, ∀ r ∈ s.requests.get? id, (s.objs r).isFinished = false →
    Reported k id (m.sampledTokenIds id) (m.hasPoolerOutput id) (s.objs r)

def SafeOutputs (c : SchedulerConfig) (s : Scheduler) (o : SchedulerOutput) (k : Mark)
    (m : ModelRunnerOutput) : Prop :=
  ∀ id ∈ o.numScheduledTokens.keys, ∀ r ∈ s.requests.get? id, (s.objs r).isFinished = false →
    SafeOutput c k id (m.sampledTokenIds id) (m.hasPoolerOutput id) (s.objs r)

def NoInvalidBlocks (m : ModelRunnerOutput) : Prop :=
  ∀ out ∈ m.kvConnectorOutput, out.invalidBlockIds = []

theorem Looped.allTallied (hloop : Looped c env o m [] o.numScheduledTokens.keys u u')
    (hknown : Known u.sched)
    (hasync : c.asyncScheduling = true) (hlink : Linked o k)
    (hrep : ReportedAll u.sched o k m) (hsafe : SafeOutputs c u.sched o k m)
    (ht : AllTallied u.sched (k :: ks)) : AllTallied u'.sched ks := by
  intro id r hr hf
  by_cases hid : id ∈ o.numScheduledTokens.keys
  · cases hget : u.sched.requests.get? id with
    | none =>
      rw [hloop.absent id hid hget] at hr
      cases hr
    | some x =>
      cases hfx : (u.sched.objs x).isFinished with
      | true =>
        obtain ⟨hobj, hx⟩ := hloop.skipped id hid x hget (.inr hfx)
        obtain rfl := Option.some.inj (hr.symm.trans hx)
        rw [hobj, hfx] at hf
        cases hf
      | false =>
        obtain ⟨u₁, u₂, hvisit, hobj₁, hobj₂, hget₁, hget₂, -⟩ :=
          hloop.visited id hid x hget List.not_mem_nil hfx
        have hrx : r = x := by
          rw [hget₂] at hr
          exact (Option.some.inj (hget₁.symm.trans (get?_of_updateRequest hvisit hr))).symm
        subst hrx
        have htallied := updateRequest_tallied (k := k) hasync hlink
          (by rw [hobj₁]; exact hrep id hid r hget hfx) (by rw [hobj₁]; exact hsafe id hid r hget hfx)
          (by rw [hobj₁]; exact ht id r hget hfx) hvisit
        rw [← hobj₂] at htallied
        rcases htallied with hdone | htallied
        · rw [hdone] at hf
          cases hf
        · exact htallied
  · have hexpected : k.expected id = 0 := by
      by_contra hne
      exact hid (hlink id hne).1
    have hget : u.sched.requests.get? id = some r := by
      rw [← hloop.requests id hid]
      exact hr
    have hobj : u'.sched.objs r = u.sched.objs r := by
      refine hloop.objs r fun id' hid' hr' => ?_
      have heq : id' = id := (hknown id' r hr').symm.trans (hknown id r hget)
      exact hid (heq ▸ hid')
    rw [hobj] at hf ⊢
    exact (Tally.idle_iff hexpected).mp (ht id r hget hf)

structure Shrinks (s s' : Scheduler) : Prop where
  objs : s'.objs = s.objs
  requests : ∀ id r, s'.requests.get? id = some r → s.requests.get? id = some r

theorem Shrinks.refl (s : Scheduler) : Shrinks s s := ⟨rfl, fun _ _ h => h⟩

theorem Shrinks.trans {s s₁ s₂ : Scheduler} (h : Shrinks s s₁) (h' : Shrinks s₁ s₂) :
    Shrinks s s₂ :=
  ⟨h'.objs.trans h.objs, fun id r hr => h.requests id r (h'.requests id r hr)⟩

theorem Shrinks.allTallied {s s' : Scheduler} (h : Shrinks s s') (ht : AllTallied s ks) :
    AllTallied s' ks := by
  intro id r hr hf
  rw [h.objs] at hf ⊢
  exact ht id r (h.requests id r hr) hf

theorem foldlM_shrinks {α : Type} {f : Scheduler → α → Result Scheduler} {l : List α}
    {s s' : Scheduler} (hf : ∀ s s' a, f s a = .ok s' → Shrinks s s') (h : l.foldlM f s = .ok s') :
    Shrinks s s' := by
  induction l generalizing s with
  | nil =>
    cases h
    exact .refl _
  | cons a l ih =>
    simp only [List.foldlM_cons, Result.bind_eq_ok] at h
    obtain ⟨s₁, hs₁, h⟩ := h
    exact (hf s s₁ a hs₁).trans (ih h)

theorem freeBlocks_shrinks {s s' : Scheduler} (h : s.freeBlocks r = .ok s') : Shrinks s s' := by
  simp only [freeBlocks, Result.bind_eq_ok, Result.pure_eq_ok] at h
  obtain ⟨-, -, rfl⟩ := h
  refine ⟨rfl, fun id x hx => ?_⟩
  simp only [Dict.get?_erase] at hx
  split at hx
  · cases hx
  · exact hx

theorem finishTransfers_shrinks {s s' : Scheduler} (h : finishTransfers s m = .ok s') :
    Shrinks s s' := by
  unfold finishTransfers at h
  split at h
  · cases h
    exact .refl _
  · simp only [updateFromKvXferFinished, Result.bind_eq_ok] at h
    obtain ⟨s₁, hs₁, h⟩ := h
    refine .trans (foldlM_shrinks (fun s s' id h => ?_) hs₁)
      (foldlM_shrinks (fun s s' id h => ?_) h)
    · unfold finishRecving at h
      split at h
      · cases h
      · split at h
        · cases h
          exact ⟨rfl, fun _ _ h => h⟩
        · exact freeBlocks_shrinks h
    · unfold finishSending at h
      split at h
      · cases h
      · exact freeBlocks_shrinks h

theorem failedLoads_of_valid {s : Scheduler} (h : NoInvalidBlocks m) :
    failedLoads c s m = .ok ([], s) := by
  unfold failedLoads
  split
  · rfl
  · rename_i out hout
    rw [if_pos (h out hout)]

theorem updateFromOutput_looped {s s' : Scheduler} {outputs : List EngineCoreOutput}
    (hknown : Known s) (hvalid : NoInvalidBlocks m)
    (h : updateFromOutput c env s o m = .ok (outputs, s')) :
    ∃ u, Looped c env o m [] o.numScheduledTokens.keys { sched := s } u ∧ u.outputs = outputs ∧
      Shrinks u.sched s' := by
  simp only [updateFromOutput, failedLoads_of_valid hvalid, Result.bind_eq_ok, Prod.exists,
    Result.pure_eq_ok, Prod.mk.injEq, Except.ok.injEq] at h
  obtain ⟨failed, s₁, ⟨rfl, rfl⟩, u, hu, outputs₁, s₂, hfinish, s₃, htransfer, rfl, rfl⟩ := h
  have hfin : finishFailed c env (u.outputs, dequeueStopped c u) [] =
      .ok (u.outputs, dequeueStopped c u) := by
    simp [finishFailed]
  rw [hfin] at hfinish
  cases hfinish
  refine ⟨u, updateRequests_looped hknown o.numScheduledTokens.nodup hu, rfl, ?_⟩
  have hdequeue : Shrinks u.sched (dequeueStopped c u) := ⟨rfl, fun _ _ h => h⟩
  have htransferred := hdequeue.trans (finishTransfers_shrinks htransfer)
  exact ⟨htransferred.objs, htransferred.requests⟩

end Scheduler

end Vllm
