import Vllm.AsyncOps
import Vllm.InvalidStatus
import Vllm.QueueRun

namespace Vllm

open Result

attribute [local simp] Own own_of_raised

@[simp] theorem checkStop_avoids {maxModelLen : Nat} {q : Request} :
    Avoids Own (checkStop maxModelLen q) := by
  unfold checkStop
  simp only [avoids_bind, avoids_ensure, Own]
  refine ⟨by simp, fun _ _ => ?_⟩
  split
  · simp
  · split
    · simp
    · split
      · simp
      · simp only [avoids_ite, avoids_pure, implies_true, true_and]
        intro _ _ _
        split
        · simp
        · simp

@[simp] theorem appendUntilStop_avoids {c : SchedulerConfig} {tokenIds : List Token} {q : Request} :
    Avoids Own (appendUntilStop c tokenIds q) := by
  induction tokenIds generalizing q with
  | nil => simp [appendUntilStop]
  | cons t tokenIds ih => simp [appendUntilStop, ih]

namespace Scheduler

variable {c : SchedulerConfig} {env : Outside} {s : Scheduler} {r : Ref} {o : SchedulerOutput}
  {m : ModelRunnerOutput} {id : ReqId} {u : UpdateState} {k : Mark} {ks : List Mark}

theorem applyOutput_avoids {generated : List Token} {pooled : Bool}
    (h : generated ≠ [] → (s.objs r).discardLatestAsyncTokens = false → ∀ kept stopped q,
      appendUntilStop c generated (s.objs r) = .ok (kept, stopped, q) →
      0 ≤ q.numOutputPlaceholders - kept.length) :
    Avoids Own (applyOutput c s r generated pooled) := by
  unfold applyOutput updateRequestWithOutput
  simp only [avoids_ite, avoids_ok, implies_true, true_and, and_true, avoids_bind,
    appendUntilStop_avoids, avoids_pure, avoids_ensure]
  refine fun hne _ hd x hx => ⟨fun hneg => ?_, fun _ _ _ => own_of_raised KVCacheManager.cacheBlocks_avoids⟩
  obtain ⟨kept, stopped, q⟩ := x
  exact absurd (h hne (by simpa using hd) kept stopped q hx) hneg

@[simp] theorem freeRequest_avoids {delay : Bool} : Avoids Own (freeRequest c env s r delay) := by
  simp [freeRequest, connectorFinished, KVCacheManager.removeSkippedBlocks, freeBlocks,
    KVCacheManager.eachManager_avoids]

@[simp] theorem handleStoppedRequest_avoids : Avoids Own (handleStoppedRequest c s r) := by
  unfold handleStoppedRequest
  simp only [avoids_ite, avoids_ok, implies_true, true_and]
  intro _
  split
  · rename_i update queue _
    cases update with
    | none => simp
    | some update =>
      simp only [avoids_bind, avoids_pure, implies_true, and_true]
      unfold updateRequestAsSession
      split
      · simp
      · simp
  · simp

theorem updateRequest_avoids (hlink : Linked o k)
    (hrep : Reported k id (m.sampledTokenIds id) (m.hasPoolerOutput id) (u.sched.objs r))
    (ht : (u.sched.objs r).Tallied (k :: ks) id) :
    Avoids Own (updateRequest c env o m u id r) := by
  have hobj : ((if 0 < (o.scheduledSpecDecodeTokens.getD id []).length ∧
      m.sampledTokenIds id ≠ [] then
        u.sched.modify r (rejectDrafts (o.scheduledSpecDecodeTokens.getD id []).length
          (m.sampledTokenIds id).length)
      else u.sched).objs r) = afterDrafts o m id (u.sched.objs r) := by
    unfold afterDrafts
    split
    · exact Function.update_self ..
    · rfl
  unfold updateRequest
  simp only [avoids_bind, avoids_ite, avoids_ok, avoids_pure, implies_true, and_true]
  refine ⟨applyOutput_avoids fun hne hd kept stopped q hq => ?_, fun x _ => ?_⟩
  · rw [hobj] at hd hq
    obtain ⟨computed, placeholders, hframe⟩ := afterDrafts_frame o m id (u.sched.objs r)
    have hd' : (u.sched.objs r).discardLatestAsyncTokens = false := by
      rw [hframe] at hd
      exact hd
    exact updateRequest_placeholders hlink hrep ht hne hd' hq
  · simp [settleStopped]

theorem updateRequests_avoids {items : List (ReqId × Int)} (hknown : Known u.sched)
    (hnodup : (items.map Prod.fst).Nodup)
    (h : ∀ id ∈ items.map Prod.fst, ∀ r, u.sched.requests.get? id = some r →
      (u.sched.objs r).isFinished = false → ∀ u₁ : UpdateState, u₁.sched.objs r = u.sched.objs r →
      Avoids Own (updateRequest c env o m u₁ id r)) :
    Avoids Own (updateRequests c env o m [] items u) := by
  induction items generalizing u with
  | nil => simp [updateRequests]
  | cons item items ih =>
    obtain ⟨reqId, n⟩ := item
    rw [List.map_cons, List.nodup_cons] at hnodup
    have hskip : Avoids Own (updateRequests c env o m [] items u) :=
      ih hknown hnodup.2 fun id hid => h id (List.mem_cons_of_mem _ hid)
    simp only [updateRequests, avoids_bind, avoids_ensure, avoids_ite, List.not_mem_nil,
      false_implies, not_false_eq_true, true_implies, true_and, Own]
    refine ⟨by simp, fun _ _ => ?_⟩
    split
    · exact hskip
    · rename_i r hr
      simp only [avoids_ite, avoids_bind]
      refine ⟨fun _ => hskip, fun hf => ⟨h reqId List.mem_cons_self r hr (by simpa using hf) u rfl,
        fun u₁ hu₁ => ?_⟩⟩
      refine ih (hknown.updateRequest hu₁) hnodup.2 fun id hid x hx hfx u₂ hobj => ?_
      have hne : id ≠ reqId := fun heq => hnodup.1 (heq ▸ hid)
      obtain ⟨hx', hsame⟩ := updateRequest_others hknown hr hu₁ hne hx
      rw [hsame] at hfx hobj
      exact h id (List.mem_cons_of_mem _ hid) x hx' hfx u₂ hobj

theorem finishTransfers_avoids : Avoids Own (finishTransfers s m) := by
  have hfree : ∀ (s : Scheduler) (r : Ref), Avoids Own (s.freeBlocks r) := by
    intro s r
    simp [freeBlocks]
  have hrecv : ∀ (s : Scheduler) (id : ReqId), Avoids Own (s.finishRecving id) := by
    intro s id
    unfold finishRecving
    split
    · simp
    · simp [hfree]
  have hsend : ∀ (s : Scheduler) (id : ReqId), Avoids Own (s.finishSending id) := by
    intro s id
    unfold finishSending
    split
    · simp
    · exact hfree _ _
  unfold finishTransfers
  split
  · simp
  · simp [updateFromKvXferFinished, avoids_foldlM, hrecv, hsend]

theorem updateFromOutput_avoids (hknown : Known s) (hvalid : NoInvalidBlocks m)
    (hlink : Linked o k) (hrep : ReportedAll s o k m) (ht : AllTallied s (k :: ks)) :
    Avoids Own (updateFromOutput c env s o m) := by
  simp only [updateFromOutput, failedLoads_of_valid hvalid, avoids_bind, avoids_ok, avoids_pure,
    implies_true, and_true, true_and, Except.ok.injEq]
  rintro x rfl
  refine ⟨?_, fun u _ => ?_⟩
  · refine updateRequests_avoids hknown o.numScheduledTokens.nodup fun id hid r hr hf u₁ hobj => ?_
    refine updateRequest_avoids hlink ?_ (?_ : Request.Tallied _ (k :: ks) id)
    · rw [hobj]
      exact hrep id hid r hr hf
    · rw [hobj]
      exact ht id r hr hf
  · simp [finishFailed, finishTransfers_avoids]

end Scheduler

/-! The engine together with what its steps in flight will report. -/

structure AsyncServing where
  engine : Engine
  marks : List Mark := []

namespace AsyncServing

variable {c : SchedulerConfig} {v v' : AsyncServing}

def init (c : SchedulerConfig) : AsyncServing := { engine := Engine.init c }

def nextMarks (v : AsyncServing) (engine : Engine) : EngineOp → List Mark
  | .schedule _ =>
    match engine.inFlight.getLast? with
    | none => v.marks
    | some o => v.marks ++ [Mark.scheduled engine.sched o]
  | .updateFromOutput .. => v.marks.tail
  | .resetPrefixCache true => v.marks.map (Mark.markStale
      (v.engine.sched.running.map fun r => (v.engine.sched.objs r).requestId))
  | _ => v.marks

def step (c : SchedulerConfig) (v : AsyncServing) (op : EngineOp) : Result AsyncServing := do
  let engine ← v.engine.step c op
  return { engine, marks := v.nextMarks engine op }

end AsyncServing

/-- The model runner reports what a step was scheduled for, and a request id is not reused while a
step of the earlier request is in flight. -/
def EngineOp.Reports (v : AsyncServing) : EngineOp → Prop
  | .updateFromOutput _ m => ∀ o ∈ v.engine.inFlight.head?, ∀ k ∈ v.marks.head?,
      Scheduler.ReportedAll v.engine.sched o k m
  | .addRequest _ params => v.engine.sched.requests.get? params.requestId = none →
      ∀ o ∈ v.engine.inFlight, params.requestId ∉ o.numScheduledTokens.keys
  | _ => True

/-- A forced reset finds exactly one step in flight that will report tokens for each running
request; no KV load has failed, and the output is safe. -/
def EngineOp.Accountable (c : SchedulerConfig) (v : AsyncServing) : EngineOp → Prop
  | .updateFromOutput _ m => Scheduler.NoInvalidBlocks m ∧
      ∀ o ∈ v.engine.inFlight.head?, ∀ k ∈ v.marks.head?,
        Scheduler.SafeOutputs c v.engine.sched o k m
  | .resetPrefixCache true => ∀ r ∈ v.engine.sched.running,
      (Mark.yielding v.marks (v.engine.sched.objs r).requestId).length = 1
  | _ => True

namespace AsyncServing

open Scheduler

variable {c : SchedulerConfig} {v v' : AsyncServing}

/-- The placeholders are the tokens still to be reported; the assertion on them never fails; only
tokens of a stale step are discarded; and all others are reported, up to the stop. -/
structure AsyncOk (c : SchedulerConfig) (v : AsyncServing) : Prop where
  placeholders : ∀ id r, v.engine.sched.requests.get? id = some r →
    (v.engine.sched.objs r).isFinished = false →
    (v.engine.sched.objs r).numOutputPlaceholders = Mark.pending v.marks id
  noAssertion : ∀ env m, (EngineOp.updateFromOutput env m).Reports v → NoInvalidBlocks m →
    v.engine.step c (.updateFromOutput env m) ≠
      .error (.assertionError "request.num_output_placeholders >= 0")
  discarded : ∀ k ∈ v.marks.head?, ∀ id r, v.engine.sched.requests.get? id = some r →
    (v.engine.sched.objs r).isFinished = false → k.expected id ≠ 0 →
    (v.engine.sched.objs r).discardLatestAsyncTokens = true → id ∈ k.stale
  reported : ∀ env m, (EngineOp.updateFromOutput env m).Reports v → NoInvalidBlocks m →
    ∀ o ∈ v.engine.inFlight.head?, ∀ k ∈ v.marks.head?, ∀ outputs s,
    updateFromOutput c env v.engine.sched o m = .ok (outputs, s) →
    ∀ id ∈ o.numScheduledTokens.keys, ∀ r, v.engine.sched.requests.get? id = some r →
    (v.engine.sched.objs r).isFinished = false → id ∉ k.stale → m.sampledTokenIds id ≠ [] →
    ∃ out ∈ outputs, out.requestId = id ∧ ∃ stopped q,
      appendUntilStop c (m.sampledTokenIds id) (afterDrafts o m id (v.engine.sched.objs r)) =
        .ok (out.newTokenIds, stopped, q)

structure Counted (c : SchedulerConfig) (v : AsyncServing) : Prop where
  kept : v.engine.sched.ledger.Kept v.engine.sched.queued
  exact : c.hasConnector = true → v.engine.sched.ledger.Exact v.engine.sched.queued
  linked : List.Forall₂ Linked v.engine.inFlight v.marks
  tallied : AllTallied v.engine.sched v.marks

theorem Counted.known (h : v.Counted c) : Known v.engine.sched :=
  fun id r hr => (h.kept.known id r hr).2

theorem Counted.head (h : v.Counted c) {k : Mark} (hk : k ∈ v.marks.head?) :
    ∃ o rest ks, v.engine.inFlight = o :: rest ∧ v.marks = k :: ks ∧ Linked o k := by
  obtain ⟨ks, hks⟩ := List.head?_eq_some_iff.mp hk
  have hlinked := h.linked
  rw [hks] at hlinked
  cases hflight : v.engine.inFlight with
  | nil =>
    rw [hflight] at hlinked
    cases hlinked
  | cons o rest =>
    rw [hflight] at hlinked
    cases hlinked with
    | cons hlink _ => exact ⟨o, rest, ks, rfl, hks, hlink⟩

theorem exists_linked {os : List SchedulerOutput} {ks : List Mark} {k : Mark}
    (h : List.Forall₂ Linked os ks) (hk : k ∈ ks) : ∃ o ∈ os, Linked o k := by
  induction h with
  | nil => cases hk
  | @cons o k' os ks hlink _ ih =>
    rcases List.mem_cons.mp hk with rfl | hk
    · exact ⟨o, List.mem_cons_self, hlink⟩
    · obtain ⟨o', ho', hlink'⟩ := ih hk
      exact ⟨o', List.mem_cons_of_mem o ho', hlink'⟩

theorem Counted.reported (h : v.Counted c) (hasync : c.asyncScheduling = true) {env : Outside}
    {m : ModelRunnerOutput} {o : SchedulerOutput} {k : Mark} {ks : List Mark}
    (hks : v.marks = k :: ks) (hrep : ReportedAll v.engine.sched o k m)
    (hvalid : NoInvalidBlocks m) {outputs : List EngineCoreOutput} {s : Scheduler}
    (hs : updateFromOutput c env v.engine.sched o m = .ok (outputs, s)) {id : ReqId} {r : Ref}
    (hid : id ∈ o.numScheduledTokens.keys) (hr : v.engine.sched.requests.get? id = some r)
    (hf : (v.engine.sched.objs r).isFinished = false) (hfresh : id ∉ k.stale)
    (hne : m.sampledTokenIds id ≠ []) :
    ∃ out ∈ outputs, out.requestId = id ∧ ∃ stopped q,
      appendUntilStop c (m.sampledTokenIds id) (afterDrafts o m id (v.engine.sched.objs r)) =
        .ok (out.newTokenIds, stopped, q) := by
  obtain ⟨u, hloop, rfl, -⟩ := updateFromOutput_looped h.known hvalid hs
  obtain ⟨u₁, u₂, hvisit, hobj₁, -, -, -, hout⟩ := hloop.visited id hid r hr List.not_mem_nil hf
  obtain ⟨kept, stopped, q, kv, hstep, -, hkept, -⟩ := updateRequest_eq_ok hvisit
  rw [hobj₁] at hstep
  have ht := h.tallied id r hr hf
  rw [hks] at ht
  have hyields : k.expected id ≠ 0 := by
    intro h0
    have hle := (hrep id hid r hr hf).bound
    rw [h0] at hle
    exact hne (List.length_eq_zero_iff.mp (Nat.le_zero.mp hle))
  have hd : (v.engine.sched.objs r).discardLatestAsyncTokens = false := by
    cases hd : (v.engine.sched.objs r).discardLatestAsyncTokens with
    | false => rfl
    | true =>
      unfold Request.Tallied at ht
      rw [hd] at ht
      exact absurd (ht.drop hyields).1 hfresh
  obtain ⟨computed, placeholders, hframe⟩ :=
    afterDrafts_frame o m id (v.engine.sched.objs r)
  cases hstep with
  | discard _ _ hd' =>
    rw [hframe] at hd'
    rw [show (v.engine.sched.objs r).discardLatestAsyncTokens = true from hd'] at hd
    cases hd
  | appendAsync _ _ _ happend =>
    obtain ⟨_, _, _, -, -, hcase⟩ := appendUntilStop_cases happend
    have hkne : kept ≠ [] := by
      rcases hcase with ⟨-, -, rfl⟩ | ⟨-, -, h⟩
      · exact hne
      · exact h
    rcases hkept with ⟨hnil, -⟩ | ⟨out, hoid, htok, hu₂⟩
    · exact absurd hnil hkne
    · refine ⟨out, hout.subset ?_, hoid, stopped, _, htok ▸ happend⟩
      rw [hu₂]
      exact List.mem_append_right _ List.mem_cons_self
  | appendSync _ hsync =>
    rw [hasync] at hsync
    cases hsync
  | pool hnil => exact absurd hnil hne
  | idle hnil => exact absurd hnil hne

theorem Counted.asyncOk (h : v.Counted c) (hasync : c.asyncScheduling = true) : v.AsyncOk c where
  placeholders id r hr hf := (h.tallied id r hr hf).pending
  noAssertion env m hreports hvalid := by
    cases hflight : v.engine.inFlight with
    | nil => simp [Engine.step, hflight]
    | cons o rest =>
      have hlinked := h.linked
      rw [hflight] at hlinked
      cases hks : v.marks with
      | nil =>
        rw [hks] at hlinked
        cases hlinked
      | cons k ks =>
        rw [hks] at hlinked
        cases hlinked with
        | cons hlink _ =>
          have hrep : ReportedAll v.engine.sched o k m :=
            hreports o (by rw [hflight]; rfl) k (by rw [hks]; rfl)
          have havoids : Avoids Own (updateFromOutput c env v.engine.sched o m) :=
            updateFromOutput_avoids h.known hvalid hlink hrep (by rw [← hks]; exact h.tallied)
          refine Avoids.ne (E := Own) ?_ rfl
          simp [Engine.step, hflight, havoids]
  discarded k hk id r hr hf hyields hd := by
    obtain ⟨o, rest, ks, -, hks, -⟩ := h.head hk
    have ht := h.tallied id r hr hf
    unfold Request.Tallied at ht
    rw [hks, hd] at ht
    exact (ht.drop hyields).1
  reported env m hreports hvalid o ho k hk outputs s hs id hid r hr hf hfresh hne := by
    obtain ⟨o', rest, ks, hflight, hks, -⟩ := h.head hk
    have hoo : o' = o := by
      rw [hflight] at ho
      exact Option.some.inj ho
    subst hoo
    exact h.reported hasync hks (hreports o' ho k hk) hvalid hs hid hr hf hfresh hne

theorem init_counted : (init c).Counted c where
  kept := Engine.init_booked.kept
  exact _ := Engine.init_booked.exact
  linked := .nil
  tallied id r hr := by cases hr

theorem Counted.follows {e : Engine} (h : v.Counted c)
    (hf : Ledger.Follows v.engine.sched.ledger v.engine.sched.queued e.sched.ledger
      e.sched.queued) :
    e.sched.ledger.Kept e.sched.queued ∧
      (c.hasConnector = true → e.sched.ledger.Exact e.sched.queued) :=
  ⟨hf.1, fun hc => hf.2 (h.exact hc)⟩

theorem Counted.schedule {env : Outside} (h : v.Counted c) (hasync : c.asyncScheduling = true)
    (hstep : v.step c (.schedule env) = .ok v') : v'.Counted c := by
  simp only [step, Engine.step, Result.bind_eq_ok, Prod.exists, Result.pure_eq_ok] at hstep
  obtain ⟨e, ⟨o, s, hs, rfl⟩, rfl⟩ := hstep
  have hbooks := schedule_books h.kept h.exact hs
  have hmarks : v.nextMarks { sched := s, inFlight := v.engine.inFlight ++ [o] } (.schedule env) =
      v.marks ++ [Mark.scheduled s o] := by
    simp [nextMarks]
  rw [hmarks]
  refine ⟨hbooks.1, fun hc => hbooks.2 (h.exact hc), ?_, schedule_tallied hasync h.kept h.exact hs
    h.tallied⟩
  exact List.rel_append h.linked (.cons (linked_scheduled s o) .nil)

theorem Counted.update {env : Outside} {m : ModelRunnerOutput} (h : v.Counted c)
    (hasync : c.asyncScheduling = true) (hreports : (EngineOp.updateFromOutput env m).Reports v)
    (hop : (EngineOp.updateFromOutput env m).Accountable c v)
    (hstops : c.hasConnector = true → (EngineOp.updateFromOutput env m).StopsInWaiting c v.engine)
    (hstep : v.step c (.updateFromOutput env m) = .ok v') : v'.Counted c := by
  simp only [step, Result.bind_eq_ok, Result.pure_eq_ok] at hstep
  obtain ⟨e, he, rfl⟩ := hstep
  obtain ⟨o, rest, outputs, s, hflight, hs, rfl⟩ := Engine.step_updateFromOutput he
  obtain ⟨hkept, hexact⟩ := updateFromOutput_books h.kept hs
  have hlinked := h.linked
  rw [hflight] at hlinked
  cases hks : v.marks with
  | nil =>
    rw [hks] at hlinked
    cases hlinked
  | cons k ks =>
    rw [hks] at hlinked
    cases hlinked with
    | cons hlink hrest =>
      have ho : o ∈ v.engine.inFlight.head? := by
        rw [hflight]
        rfl
      have hk : k ∈ v.marks.head? := by
        rw [hks]
        rfl
      obtain ⟨u, hloop, -, hshrinks⟩ := updateFromOutput_looped h.known hop.1 hs
      have hmarks : v.nextMarks { sched := s, inFlight := rest } (.updateFromOutput env m) = ks := by
        simp [nextMarks, hks]
      rw [hmarks]
      refine ⟨hkept, fun hc => hexact (h.exact hc) ?_, hrest, hshrinks.allTallied ?_⟩
      · exact Engine.Booked.allStopInWaiting ⟨h.kept, h.exact hc⟩ hflight (hstops hc)
      · refine hloop.allTallied h.known hasync hlink (hreports o ho k hk) (hop.2 o ho k hk) ?_
        rw [← hks]
        exact h.tallied

theorem Counted.reset {force : Bool} (h : v.Counted c)
    (hop : (EngineOp.resetPrefixCache force).Accountable c v)
    (hstep : v.step c (.resetPrefixCache force) = .ok v') : v'.Counted c := by
  simp only [step, Engine.step, Result.bind_eq_ok, Prod.exists, Result.pure_eq_ok] at hstep
  obtain ⟨e, ⟨success, s, hs, rfl⟩, rfl⟩ := hstep
  obtain ⟨hkept, hexact⟩ := h.follows (e := { v.engine with sched := s })
    (resetPrefixCache_books h.kept hs)
  simp only [resetPrefixCache, Result.bind_eq_ok, Result.pure_eq_ok, Prod.mk.injEq] at hs
  obtain ⟨s₁, hs₁, -, rfl⟩ := hs
  cases force with
  | false =>
    cases hs₁
    exact ⟨hkept, hexact, h.linked, h.tallied⟩
  | true =>
    simp only [if_true, Result.bind_eq_ok, Result.pure_eq_ok] at hs₁
    obtain ⟨s₂, hs₂, rfl⟩ := hs₁
    have htallied := preemptAll_tallied h.kept hop hs₂ h.tallied
    refine ⟨hkept, hexact, ?_, htallied⟩
    exact List.forall₂_map_right_iff.mpr (h.linked.imp fun o k hlink id hne => hlink id hne)

theorem Counted.step {op : EngineOp} (h : v.Counted c) (hasync : c.asyncScheduling = true)
    (hreports : op.Reports v) (hop : op.Accountable c v)
    (hstops : c.hasConnector = true → op.StopsInWaiting c v.engine)
    (hstep : v.step c op = .ok v') : v'.Counted c := by
  cases op with
  | schedule env => exact h.schedule hasync hstep
  | updateFromOutput env m => exact h.update hasync hreports hop hstops hstep
  | resetPrefixCache force => exact h.reset hop hstep
  | addRequest env params =>
    simp only [AsyncServing.step, Engine.step, Result.bind_eq_ok, Result.pure_eq_ok] at hstep
    obtain ⟨e, ⟨s, hs, rfl⟩, rfl⟩ := hstep
    obtain ⟨hkept, hexact⟩ := h.follows (e := { v.engine with sched := s })
      (addRequest_books h.kept hs)
    refine ⟨hkept, hexact, h.linked, addRequest_tallied h.kept (fun hnone k hk => ?_) hs h.tallied⟩
    obtain ⟨o, ho, hlink⟩ := exists_linked h.linked hk
    by_contra hne
    exact hreports hnone o ho (hlink _ hne).1
  | finishRequests env ids status =>
    simp only [AsyncServing.step, Engine.step, Result.bind_eq_ok, Result.pure_eq_ok] at hstep
    obtain ⟨e, ⟨s, hs, rfl⟩, rfl⟩ := hstep
    obtain ⟨hkept, hexact⟩ := h.follows (e := { v.engine with sched := s })
      (finishRequests_books h.kept hs)
    exact ⟨hkept, hexact, h.linked, finishRequests_tallied hs h.tallied⟩
  | setPauseState p =>
    simp only [AsyncServing.step, Engine.step, Result.bind_eq_ok, Result.pure_eq_ok] at hstep
    obtain ⟨e, he, rfl⟩ := hstep
    cases he
    exact ⟨h.kept, h.exact, h.linked, h.tallied⟩

end AsyncServing

open Scheduler in
instance EngineOp.Reports.decidable (v : AsyncServing) : ∀ op : EngineOp, Decidable (op.Reports v)
  | .updateFromOutput _ m => inferInstanceAs (Decidable (∀ o ∈ v.engine.inFlight.head?,
      ∀ k ∈ v.marks.head?, ∀ id ∈ o.numScheduledTokens.keys,
      ∀ r ∈ v.engine.sched.requests.get? id, (v.engine.sched.objs r).isFinished = false →
      Reported k id (m.sampledTokenIds id) (m.hasPoolerOutput id) (v.engine.sched.objs r)))
  | .addRequest _ params =>
    inferInstanceAs (Decidable (v.engine.sched.requests.get? params.requestId = none →
      ∀ o ∈ v.engine.inFlight, params.requestId ∉ o.numScheduledTokens.keys))
  | .schedule _ => isTrue trivial
  | .finishRequests .. => isTrue trivial
  | .resetPrefixCache _ => isTrue trivial
  | .setPauseState _ => isTrue trivial

instance EngineOp.Accountable.decidable {c : SchedulerConfig} (v : AsyncServing) :
    ∀ op : EngineOp, Decidable (op.Accountable c v)
  | .updateFromOutput _ m =>
    inferInstanceAs (Decidable ((∀ out ∈ m.kvConnectorOutput, out.invalidBlockIds = []) ∧
      ∀ o ∈ v.engine.inFlight.head?, ∀ k ∈ v.marks.head?, ∀ id ∈ o.numScheduledTokens.keys,
      ∀ r ∈ v.engine.sched.requests.get? id, (v.engine.sched.objs r).isFinished = false →
      SafeOutput c k id (m.sampledTokenIds id) (m.hasPoolerOutput id) (v.engine.sched.objs r)))
  | .resetPrefixCache true => inferInstanceAs (Decidable (∀ r ∈ v.engine.sched.running,
      (Mark.yielding v.marks (v.engine.sched.objs r).requestId).length = 1))
  | .resetPrefixCache false => isTrue trivial
  | .addRequest .. => isTrue trivial
  | .schedule _ => isTrue trivial
  | .finishRequests .. => isTrue trivial
  | .setPauseState _ => isTrue trivial

/-- In every run in which a forced reset finds one step in flight for each running request, and no
output hits one of the unsafe cases, the placeholders are right and no token is lost. -/
theorem asyncOk_of_accountable (c : SchedulerConfig) (hasync : c.asyncScheduling = true)
    (ops : List EngineOp)
    (h : Guarded (AsyncServing.step c) (fun v op => op.Reports v ∧ op.Accountable c v ∧
      (c.hasConnector = true → op.StopsInWaiting c v.engine)) (AsyncServing.init c) ops) :
    Throughout (AsyncServing.step c) (AsyncServing.AsyncOk c) (AsyncServing.init c) ops :=
  throughout_of_inv
    (fun _ _ _ hcounted hop hstep => hcounted.step hasync hop.1 hop.2.1 hop.2.2 hstep)
    (fun _ hcounted => hcounted.asyncOk hasync) AsyncServing.init_counted h

def overlapped : SchedulerConfig := { pipelined with asyncScheduling := true, usePp := false }

def chat : RequestParams where
  requestId := "r"
  promptTokenIds := some [1]
  samplingParams := some { maxTokens := 4 }

def sampled (token : Token) : EngineOp := .updateFromOutput {} { sampledTokenIds := fun _ => [token] }

def resetInFlight : List EngineOp :=
  [.addRequest {} chat, .schedule {}, .resetPrefixCache true, sampled 5, .schedule {}, sampled 6]

theorem asyncOk_resetInFlight : Throughout (AsyncServing.step overlapped)
    (AsyncServing.AsyncOk overlapped) (AsyncServing.init overlapped) resetInFlight :=
  asyncOk_of_accountable overlapped rfl resetInFlight (by decide +kernel)

def resetBetweenSteps : List EngineOp :=
  [.addRequest {} chat, .schedule {}, sampled 5, .resetPrefixCache true, .schedule {}, sampled 6]

theorem not_asyncOk_resetBetweenSteps :
    ¬ Throughout (AsyncServing.step overlapped) (AsyncServing.AsyncOk overlapped)
      (AsyncServing.init overlapped) resetBetweenSteps ∧
    ∃ v, runSteps (AsyncServing.step overlapped) (AsyncServing.init overlapped)
        resetBetweenSteps = .ok v ∧
      v.engine.sched.requests.get? "r" = some 0 ∧ (v.engine.sched.objs 0).isFinished = false ∧
      (v.engine.sched.objs 0).outputTokenIds = [5] ∧
      (v.engine.sched.objs 0).numOutputPlaceholders = 1 ∧ v.marks.length = 0 := by
  obtain ⟨v, hrun, hv⟩ := Result.exists_of_holds
    (x := runSteps (AsyncServing.step overlapped) (AsyncServing.init overlapped) resetBetweenSteps)
    (p := fun v => v.engine.sched.requests.get? "r" = some 0 ∧
      (v.engine.sched.objs 0).isFinished = false ∧ (v.engine.sched.objs 0).outputTokenIds = [5] ∧
      (v.engine.sched.objs 0).numOutputPlaceholders = 1 ∧ v.marks.length = 0)
    (by decide +kernel)
  rw [decide_eq_true_eq] at hv
  refine ⟨fun h => ?_, v, hrun, hv⟩
  obtain ⟨hget, hf, -, hone, hmarks⟩ := hv
  have hpending := (h.last hrun).placeholders "r" 0 hget hf
  rw [hone, List.length_eq_zero_iff.mp hmarks] at hpending
  cases hpending

end Vllm
