import Vllm.EncoderFirstStep
import Vllm.EncoderSlotOps
import Vllm.QueueRun

namespace Vllm

open EncoderCacheManager EncoderCall

/-! Operations that free only requests without embeddings. -/

namespace Scheduler

variable {c : SchedulerConfig} {env : Outside} {s s' : Scheduler} {held : List EncoderInput} {r : Ref} {q : Request}
  {status : RequestStatus}

theorem orderly_free_of_none (h : q.hasEncoderEmbeds = false) (r : Ref) (held : List EncoderInput) :
    Orderly held (EncoderCall.free r q) :=
  (HoldsAll.of_none h).orderly_free List.nodup_range

theorem finishAll_orderly {refs : List Ref} (h : ∀ r ∈ refs, (s.objs r).hasEncoderEmbeds = false) :
    Orderly held (finishAllCalls c env status refs s) := by
  induction refs generalizing s held with
  | nil => trivial
  | cons r refs ih =>
    unfold finishAllCalls
    rw [orderly_append]
    refine ⟨orderly_free_of_none (q := { s.objs r with status := status }) (h r List.mem_cons_self) r held, ?_⟩
    cases hs : finishRequest c env status s r with
    | error _ => trivial
    | ok s₁ =>
      refine ih fun x hx => ?_
      rw [(finishRequest_frame hs).1, Function.update_apply]
      split
      · exact h r List.mem_cons_self
      · exact h x (List.mem_cons_of_mem r hx)

theorem finishRequests_orderly {ids : Option (List ReqId)}
    (h : ∀ r ∈ s.unfinishedOf (match ids with | some ids => ids.dedup | none => s.requests.keys),
      (s.objs r).hasEncoderEmbeds = false) : Orderly held (finishRequestsCalls c env s ids status) :=
  finishAll_orderly h

theorem preemptAll_orderly {fuel : Nat} (h : ∀ r ∈ s.running, (s.objs r).hasEncoderEmbeds = false) :
    Orderly held (preemptAllCalls c fuel s) := by
  induction fuel generalizing s held with
  | zero => trivial
  | succ fuel ih =>
    unfold preemptAllCalls
    cases hlast : s.running.getLast? with
    | none => trivial
    | some r =>
      dsimp only
      have hr : (s.objs r).hasEncoderEmbeds = false := h r (List.mem_of_getLast? hlast)
      rw [orderly_append]
      refine ⟨orderly_free_of_none hr r held, ?_⟩
      cases hs : preemptRequest c { s with running := s.running.dropLast } r with
      | error _ => trivial
      | ok s₁ =>
        obtain ⟨-, rfl⟩ := Step.preemptRequest_eq_ok hs
        refine ih fun x hx => ?_
        simp only [modify, Function.update_self, Function.update_idem, Function.update_apply]
        split
        · exact hr
        · exact h x (List.dropLast_subset _ hx)

section Update

variable {o : SchedulerOutput} {m : ModelRunnerOutput} {u u' : UpdateState} {reqId : ReqId} {failed : List ReqId}

def endsWith (c : SchedulerConfig) (m : ModelRunnerOutput) (reqId : ReqId) (q : Request) : Bool :=
  stops c q (m.sampledTokenIds reqId) (m.hasPoolerOutput reqId) && !goesOnStopped q

theorem handleStoppedRequest_finished (hok : handleStoppedRequest c s r = .ok (true, s')) :
    goesOnStopped (s.objs r) = false ∧ (s'.objs r).mmFeatures = (s.objs r).mmFeatures := by
  unfold handleStoppedRequest at hok
  dsimp only at hok
  split at hok
  · rename_i hres
    cases hok
    rw [Bool.not_eq_true'] at hres
    rw [goesOnStopped, hres, Bool.false_and]
    exact ⟨rfl, rfl⟩
  · split at hok
    · rename_i update queue hqueue
      cases update with
      | none =>
        cases hok
        rw [goesOnStopped, hqueue, Bool.and_false]
        refine ⟨rfl, ?_⟩
        simp only [modify, Function.update_self]
      | some update =>
        simp only [Result.bind_eq_ok, Result.pure_eq_ok, Prod.mk.injEq] at hok
        obtain ⟨-, -, hno, -⟩ := hok
        cases hno
    · cases hok

theorem updateRequest_ends (hlive : (u.sched.objs r).isFinished = false)
    (hok : updateRequest c env o m u reqId r = .ok u') (hfin : (u'.sched.objs r).isFinished = true) :
    endsWith c m reqId (u.sched.objs r) = true ∧
      (u'.sched.objs r).mmFeatures = (u.sched.objs r).mmFeatures := by
  obtain ⟨kept, stopped, q, kv, hstep, -, -, hcase⟩ := updateRequest_eq_ok hok
  obtain ⟨computed, placeholders, hdrafts⟩ := afterDrafts_frame o m reqId (u.sched.objs r)
  have hfeatures := hstep.mmFeatures
  obtain ⟨-, hres, hqueue, hstatus⟩ := hstep.frame
  rw [hdrafts] at hfeatures hres hqueue hstatus
  rcases hcase with ⟨rfl, hsched, -⟩ | ⟨rfl, ⟨finished, s₁, hstop, hsettle⟩, -⟩
  · exfalso
    rcases hstatus with ⟨-, hsame⟩ | ⟨hno, -⟩
    · rw [hsched] at hfin
      dsimp only at hfin
      rw [Function.update_self, Request.isFinished, hsame] at hfin
      have hlive' : (u.sched.objs r).status.isFinished = false := hlive
      rw [hlive'] at hfin
      cases hfin
    · cases hno
  · have hobjs : u'.sched.objs = s₁.objs := by
      rcases hsettle with ⟨-, hfree⟩ | ⟨-, hsched⟩
      · exact (freeRequest_eq_ok hfree).2.elim fun _ h => h.elim fun _ h => h.elim fun _ h => by rw [h.1]
      · rw [hsched]
    have hfinished : finished = true := by
      obtain ⟨-, hflag⟩ := handleStoppedRequest_encoder hstop
      rw [hobjs, hflag, Bool.and_eq_true] at hfin
      exact hfin.1
    subst hfinished
    obtain ⟨hends, hsame⟩ := handleStoppedRequest_finished hstop
    dsimp only at hends hsame
    rw [Function.update_self] at hends hsame
    have hstops : stops c (u.sched.objs r) (m.sampledTokenIds reqId) (m.hasPoolerOutput reqId) = true := by
      refine hstep.stops_of_stopped ?_ ?_
      · rw [hdrafts]
        rfl
      · rw [hdrafts]
    have hends' : goesOnStopped (u.sched.objs r) = false := by
      unfold goesOnStopped at hends ⊢
      rw [hres, hqueue] at hends
      exact hends
    rw [endsWith, hstops, hends', hobjs]
    exact ⟨rfl, hsame.trans hfeatures⟩

theorem updateRequests_orderly {items : List (ReqId × Int)} (hknown : Known u.sched)
    (hnodup : (items.map Prod.fst).Nodup)
    (h : ∀ id ∈ items.map Prod.fst, id ∉ failed → ∀ r, u.sched.requests.get? id = some r →
      (u.sched.objs r).isFinished = false → endsWith c m id (u.sched.objs r) = true →
      (u.sched.objs r).hasEncoderEmbeds = false) :
    Orderly held (updateRequestsCalls c env o m failed items u) := by
  induction items generalizing u held with
  | nil => trivial
  | cons item items ih =>
    obtain ⟨reqId, n⟩ := item
    rw [List.map_cons] at hnodup h
    obtain ⟨hids, hnodup⟩ := List.nodup_cons.mp hnodup
    have hskip : Orderly held (updateRequestsCalls c env o m failed items u) :=
      ih hknown hnodup fun id hid => h id (List.mem_cons_of_mem reqId hid)
    unfold updateRequestsCalls
    split
    · exact hskip
    · rename_i hfailed
      cases hr : u.sched.requests.get? reqId with
      | none => exact hskip
      | some r =>
        dsimp only
        split
        · exact hskip
        · rename_i hlive
          rw [Bool.not_eq_true] at hlive
          cases hu : updateRequest c env o m u reqId r with
          | error _ => trivial
          | ok u₁ =>
            rw [Result.collect_ok, orderly_append]
            refine ⟨?_, ih (hknown.updateRequest hu) hnodup fun id hid hnf x hx hxlive hxends => ?_⟩
            · split
              · rename_i hfin
                obtain ⟨hends, hsame⟩ := updateRequest_ends hlive hu hfin
                refine orderly_free_of_none ?_ r held
                rw [Request.hasEncoderEmbeds_congr hsame]
                exact h reqId List.mem_cons_self hfailed r hr hlive hends
              · trivial
            · have hne : id ≠ reqId := fun heq => hids (heq ▸ hid)
              obtain ⟨hx', hobj⟩ := updateRequest_others hknown hr hu hne hx
              rw [hobj] at hxlive hxends ⊢
              exact h id (List.mem_cons_of_mem reqId hid) hnf x hx' hxlive hxends

theorem updateRequests_failed {items : List (ReqId × Int)} (hknown : Known u.sched)
    (hnodup : (items.map Prod.fst).Nodup) (hok : updateRequests c env o m failed items u = .ok u') {id : ReqId}
    (hid : id ∈ failed) {x : Ref} (hx : u'.sched.requests.get? id = some x) :
    u.sched.requests.get? id = some x ∧ u'.sched.objs x = u.sched.objs x := by
  have hlooped := updateRequests_looped hknown hnodup hok
  have hx' := (updateRequests_recalls hok).requests id x hx
  refine ⟨hx', ?_⟩
  by_cases hmem : id ∈ items.map Prod.fst
  · exact (hlooped.skipped id hmem x hx' (.inl hid)).1
  · refine hlooped.objs x fun id' hid' hx'' => hmem ?_
    rwa [(hknown id x hx').symm.trans (hknown id' x hx'')]

/-- No request with encoder embeddings comes to its end with this output: it is not stopped for good, and not
finished because a load of its KV blocks has failed. -/
def endsNoEncoder (c : SchedulerConfig) (s : Scheduler) (o : SchedulerOutput) (m : ModelRunnerOutput) : Bool :=
  match failedLoads c s m with
  | .error _ => true
  | .ok (failed, _) =>
    (o.numScheduledTokens.keys.all fun id => failed.contains id ||
      match s.requests.get? id with
      | none => true
      | some r => (s.objs r).isFinished || !endsWith c m id (s.objs r) || !(s.objs r).hasEncoderEmbeds) &&
    (c.recomputeKvLoadFailures || (s.unfinishedOf failed).all fun r => !(s.objs r).hasEncoderEmbeds)

theorem SameButCounters.endsWith_eq (hc : SameButCounters s s') (id : ReqId) (r : Ref)
    (h : endsWith c m id (s'.objs r) = true) : endsWith c m id (s.objs r) = true := by
  obtain ⟨objs, kv, failed, rfl, hobjs⟩ := hc
  obtain ⟨a, b, hab⟩ := hobjs r
  dsimp only at h
  rw [hab, endsWith, Bool.and_eq_true] at h
  obtain ⟨hstops, hends⟩ := h
  have hstops' : stops c (s.objs r) (m.sampledTokenIds id) (m.hasPoolerOutput id) = true := by
    refine stops_congr ?_ ?_ hstops
    · rfl
    · rfl
  have hends' : (!goesOnStopped (s.objs r)) = true := hends
  rw [endsWith, hstops', hends']
  rfl

theorem updateFromOutput_orderly {outputs : List EngineCoreOutput} (hl : s.Listed)
    (h : endsNoEncoder c s o m = true) (hok : updateFromOutput c env s o m = .ok (outputs, s')) :
    Orderly held (updateFromOutputCalls c env s o m) := by
  simp only [updateFromOutput, Result.bind_eq_ok, Prod.exists, Result.pure_eq_ok, Prod.mk.injEq] at hok
  obtain ⟨failed, s₁, hfailed, u, hu, -⟩ := hok
  have hc := failedLoads_counters hfailed
  have hknown : Known s₁ := ((SameButCounters.recalls hc).listed hl).known
  have hsame : ∀ r, (s₁.objs r).mmFeatures = (s.objs r).mmFeatures ∧
      (s₁.objs r).isFinished = (s.objs r).isFinished := by
    obtain ⟨objs, kv, failed', rfl, hobjs⟩ := hc
    intro r
    obtain ⟨a, b, hab⟩ := hobjs r
    dsimp only
    rw [hab]
    exact ⟨rfl, rfl⟩
  rw [endsNoEncoder, hfailed, Bool.and_eq_true, List.all_eq_true, Bool.or_eq_true, List.all_eq_true] at h
  obtain ⟨hstopped, hloads⟩ := h
  unfold updateFromOutputCalls
  rw [hfailed, Result.collect_ok]
  dsimp only
  rw [hu, Result.collect_ok, orderly_append]
  constructor
  · refine updateRequests_orderly hknown o.numScheduledTokens.nodup fun id hid hnf r hr hlive hends => ?_
    have hget := (SameButCounters.recalls hc).requests id r hr
    have hall := hstopped id hid
    rw [hget, Bool.or_eq_true, List.contains_iff_mem] at hall
    have hnone := hall.resolve_left hnf
    dsimp only at hlive hends hnone
    rw [← (hsame r).2, hlive, SameButCounters.endsWith_eq hc id r hends] at hnone
    rw [Request.hasEncoderEmbeds_congr (hsame r).1]
    simpa using hnone
  · unfold finishFailedCalls
    split
    · rename_i hfail
      refine finishRequests_orderly fun r hr => ?_
      obtain ⟨hmem, hlive⟩ := List.mem_filter.mp hr
      obtain ⟨id, hid, hget⟩ := List.mem_filterMap.mp hmem
      have hid : id ∈ failed := List.mem_dedup.mp hid
      obtain ⟨hget', hobj⟩ := updateRequests_failed hknown o.numScheduledTokens.nodup hu hid hget
      have hobj : (dequeueStopped c u).objs r = s₁.objs r := hobj
      rw [hobj] at hlive ⊢
      rw [(hsame r).2] at hlive
      rw [Request.hasEncoderEmbeds_congr (hsame r).1]
      rcases hloads with hno | hall
      · rw [hno] at hfail
        exact absurd hfail.2 Bool.false_ne_true
      · have hnone := hall r (List.mem_filter.mpr ⟨List.mem_filterMap.mpr
          ⟨id, hid, (SameButCounters.recalls hc).requests id r hget'⟩, hlive⟩)
        rwa [Bool.not_eq_true'] at hnone
    · trivial

end Update

end Scheduler

theorem EncoderCall.run_numFreeSlots {call : EncoderCall} {e e' : EncoderCacheManager}
    (hd : e.isEncoderDecoder = true) (h : call.run e = .ok e') :
    e'.isEncoderDecoder = true ∧
      e'.numFreeSlots = call.event.toList.foldl (SlotEvent.count EncoderInput.numEmbeds) e.numFreeSlots := by
  cases call with
  | allocate r request inputId =>
    simp only [EncoderCall.run, EncoderCacheManager.allocate, Result.bind_eq_ok] at h
    obtain ⟨hash, -, h⟩ := h
    rw [if_pos hd] at h
    cases h
    exact ⟨hd, rfl⟩
  | freeEncoderInput r request inputId =>
    simp only [EncoderCall.run, freeEncoderInput_eq hd] at h
    cases h
    exact ⟨hd, rfl⟩
  | getFreedMmHashes =>
    cases h
    unfold EncoderCacheManager.getFreedMmHashes
    rw [if_pos hd]
    exact ⟨hd, rfl⟩

theorem numFreeSlots_of_calls {calls : List EncoderCall} {e e' : EncoderCacheManager}
    (hd : e.isEncoderDecoder = true) (h : calls.foldlM EncoderCall.run e = .ok e') :
    e'.numFreeSlots =
      (calls.filterMap EncoderCall.event).foldl (SlotEvent.count EncoderInput.numEmbeds) e.numFreeSlots := by
  induction calls generalizing e with
  | nil =>
    cases h
    rfl
  | cons call calls ih =>
    rw [List.foldlM_cons, Result.bind_eq_ok] at h
    obtain ⟨e₁, he₁, h⟩ := h
    obtain ⟨hd₁, hone⟩ := EncoderCall.run_numFreeSlots hd he₁
    rw [ih hd₁ h, hone]
    cases hevent : call.event with
    | none => rw [List.filterMap_cons_none hevent, Option.toList_none, List.foldl_nil]
    | some event =>
      rw [List.filterMap_cons_some hevent, Option.toList_some, List.foldl_cons, List.foldl_cons, List.foldl_nil]

/-- The engine, with the inputs that were allocated and not yet freed. -/
structure Lending where
  engine : Engine
  held : List EncoderInput := []

namespace Lending

variable {c : SchedulerConfig} {v v' : Lending}

def init (c : SchedulerConfig) : Lending := { engine := Engine.init c }

def step (c : SchedulerConfig) (v : Lending) (op : EngineOp) : Result Lending := do
  let engine ← v.engine.step c op
  return { engine, held := EncoderCall.heldAfter v.held (v.engine.encoderCalls c op) }

/-- The slots that are not free are those of the inputs that are held. -/
structure SlotsConserved (c : SchedulerConfig) (v : Lending) : Prop where
  nonneg : 0 ≤ v.engine.sched.encoderCacheManager.numFreeSlots
  le : v.engine.sched.encoderCacheManager.numFreeSlots ≤ c.encoderCacheSize
  held : c.encoderCacheSize - v.engine.sched.encoderCacheManager.numFreeSlots =
    SlotEvent.total EncoderInput.numEmbeds v.held

def FreesHeld (c : SchedulerConfig) (v : Lending) (op : EngineOp) : Prop :=
  EncoderCall.Orderly v.held (v.engine.encoderCalls c op)

theorem total_nonneg (held : List EncoderInput) : 0 ≤ SlotEvent.total EncoderInput.numEmbeds held := by
  induction held with
  | nil => exact Int.le_refl _
  | cons x held ih =>
    rw [SlotEvent.total_cons]
    exact Int.add_nonneg (Int.natCast_nonneg _) ih

theorem step_conserved_iff {op : EngineOp} (h : v.engine.sched.encoderCacheManager.Solvent)
    (hstep : v.step c op = .ok v') :
    v'.engine.sched.encoderCacheManager.Solvent ∧
      (v.SlotsConserved c → (v'.SlotsConserved c ↔ v.FreesHeld c op)) := by
  simp only [step, Result.bind_eq_ok, Result.pure_eq_ok] at hstep
  obtain ⟨e, he, rfl⟩ := hstep
  have hreplay := Engine.step_replays h he
  refine ⟨hreplay.solvent, fun hbefore => ?_⟩
  have hfree := numFreeSlots_of_calls h.encoderDecoder hreplay.run
  have hsum : _ ∧ (_ ↔ v.FreesHeld c op) :=
    SlotEvent.foldl_count_add_total v.engine.sched.encoderCacheManager.numFreeSlots v.held
      ((v.engine.encoderCalls c op).filterMap EncoderCall.event)
  obtain ⟨-, hiff⟩ := hsum
  rw [← hfree] at hiff
  rw [← hiff]
  have hheld := hbefore.held
  have hpos := total_nonneg (EncoderCall.heldAfter v.held (v.engine.encoderCalls c op))
  constructor
  · intro hafter
    have hheld' := hafter.held
    dsimp only [EncoderCall.heldAfter] at hheld' hpos
    omega
  · intro heq
    refine ⟨hreplay.solvent.nonneg, ?_, ?_⟩
    · dsimp only [EncoderCall.heldAfter] at hpos ⊢
      omega
    · dsimp only [EncoderCall.heldAfter] at hpos ⊢
      omega

theorem init_solvent (hd : c.isEncoderDecoder = true) : (init c).engine.sched.encoderCacheManager.Solvent :=
  ⟨hd, Int.natCast_nonneg _⟩

theorem init_conserved : (init c).SlotsConserved c :=
  ⟨Int.natCast_nonneg _, Int.le_refl _, Int.sub_self _⟩

end Lending

/-- The slots are conserved in every state of a run exactly if every step frees inputs only while they hold
their slots. -/
theorem slotsConserved_iff_freesHeld (c : SchedulerConfig) (hd : c.isEncoderDecoder = true) (ops : List EngineOp) :
    Throughout (Lending.step c) (fun v => v.SlotsConserved c) (Lending.init c) ops ↔
      Guarded (Lending.step c) (fun v op => ∀ v', v.step c op = .ok v' → v.FreesHeld c op) (Lending.init c) ops :=
  throughout_iff_guarded
    (fun (v : Lending) _ _ (hsolvent : v.engine.sched.encoderCacheManager.Solvent) _ hstep =>
      Lending.step_conserved_iff hsolvent hstep)
    (Lending.init_solvent hd) Lending.init_conserved (guarded_true _ _)

/-- A request with encoder embeddings is scheduled in one step only, which plans all its encoder inputs. It is not
refused for lack of blocks, not preempted but by the call that has scheduled it, not finished and not aborted. -/
def EngineOp.inFirstSteps (c : SchedulerConfig) (e : Engine) : EngineOp → Bool
  | .addRequest _ params =>
    let request := params.init c.blockHasher
    match e.sched.requests.get? request.requestId with
    | none => true
    | some existing =>
      (e.sched.objs existing).status ≠ .waitingForStreamingReq || (StreamingUpdate.fromRequest request).isSome ||
        !(e.sched.objs existing).hasEncoderEmbeds
  | .schedule env => (Step.scheduleRequestsTurns c env e.sched).all fun t => t.inFirstStep e.sched.requests
  | .updateFromOutput _ m =>
    match e.inFlight with
    | [] => true
    | o :: _ => Scheduler.endsNoEncoder c e.sched o m
  | .finishRequests _ requestIds _ =>
    (e.sched.unfinishedOf (match requestIds with | some ids => ids.dedup | none => e.sched.requests.keys)).all
      fun r => !(e.sched.objs r).hasEncoderEmbeds
  | .resetPrefixCache resetRunningRequests =>
    !resetRunningRequests || e.sched.running.all fun r => !(e.sched.objs r).hasEncoderEmbeds
  | .setPauseState _ => true

theorem EncoderPlan.visitItems_of_computed {c : SchedulerConfig} {hasCacheItem : String → Bool} {request : Request}
    {numComputedTokens shift : Int} {items : List MultiModalFeatureSpec} {i : Nat} {plan plan' : EncoderPlan}
    (hd : c.isEncoderDecoder = true) (hpos : 0 < numComputedTokens)
    (hok : visitItems c hasCacheItem request numComputedTokens shift items i plan = .ok plan') : plan' = plan := by
  induction items generalizing i with
  | nil =>
    cases hok
    rfl
  | cons f items ih =>
    simp only [visitItems, Result.bind_eq_ok, Prod.exists] at hok
    obtain ⟨goOn, plan₁, hvisit, hok⟩ := hok
    have hsame : plan₁ = plan := by
      unfold visitItem at hvisit
      dsimp only at hvisit
      split at hvisit
      · cases hvisit
        rfl
      · rw [if_pos ⟨hd, hpos⟩] at hvisit
        simp only [Result.bind_eq_ok, Result.pure_eq_ok, Prod.mk.injEq] at hvisit
        obtain ⟨-, -, -, hplan⟩ := hvisit
        exact hplan.symm
    subst hsame
    split at hok
    · exact ih hok
    · cases hok
      rfl

/-- The plan of a later step has no encoder inputs, so a request with embeddings is not in its first step then. -/
theorem EncoderTurn.inFirstStep_of_computed {c : SchedulerConfig} {env : Outside} {s : Scheduler} {r : Ref}
    {request : Request} {requests : Dict ReqId Ref} {numComputedTokens n budget : Int} {plan : EncoderPlan}
    (hd : c.isEncoderDecoder = true) (hpos : 0 < numComputedTokens)
    (hplan : Scheduler.tryScheduleEncoderInputs c env s request numComputedTokens n budget = .ok plan)
    (hfirst : (EncoderTurn.scheduled r request plan).inFirstStep requests = true) :
    request.hasEncoderEmbeds = false := by
  have hinputs : plan.inputs = [] := by
    unfold Scheduler.tryScheduleEncoderInputs at hplan
    dsimp only at hplan
    split at hplan
    · cases hplan
      rfl
    · rw [EncoderPlan.visitItems_of_computed hd hpos hplan]
      rfl
  rw [inFirstStep, Bool.and_eq_true] at hfirst
  refine List.any_eq_false.mpr fun i hi => ?_
  rw [decide_eq_true_eq, not_not]
  by_contra hne
  have hmem := plan.mem_inputs_of_coversAll hfirst.2 hne
  rw [hinputs] at hmem
  cases hmem

namespace Engine

variable {c : SchedulerConfig} {e e' : Engine} {held : List EncoderInput}

theorem orderly_of_inFirstSteps {op : EngineOp} (hl : e.sched.Listed) (hop : op.inFirstSteps c e = true)
    (hstep : e.step c op = .ok e') : EncoderCall.Orderly held (e.encoderCalls c op) ∧ e'.sched.Listed := by
  cases op with
  | addRequest env params =>
    simp only [Engine.step, Result.bind_eq_ok, Result.pure_eq_ok] at hstep
    obtain ⟨s, hs, rfl⟩ := hstep
    refine ⟨?_, Scheduler.addRequest_listed hl hs⟩
    unfold encoderCalls Scheduler.addRequestCalls
    unfold EngineOp.inFirstSteps at hop
    dsimp only at hop ⊢
    cases hget : e.sched.requests.get? (params.init c.blockHasher).requestId with
    | none => trivial
    | some existing =>
      rw [hget] at hop
      dsimp only at hop ⊢
      split
      · trivial
      · rename_i hwaits
        cases hupdate : StreamingUpdate.fromRequest (params.init c.blockHasher) with
        | some update => trivial
        | none =>
          rw [hupdate, decide_eq_false hwaits, Option.isSome_none, Bool.false_or, Bool.false_or] at hop
          refine Scheduler.finishRequests_orderly fun r hr => ?_
          obtain ⟨hmem, -⟩ := List.mem_filter.mp hr
          obtain ⟨id, hid, hr⟩ := List.mem_filterMap.mp hmem
          obtain rfl := List.mem_singleton.mp (List.mem_dedup.mp hid)
          obtain rfl := Option.some_inj.mp (hget.symm.trans hr)
          rwa [Bool.not_eq_true'] at hop
  | schedule env =>
    simp only [Engine.step, Result.bind_eq_ok, Prod.exists, Result.pure_eq_ok] at hstep
    obtain ⟨o, s, hs, rfl⟩ := hstep
    obtain ⟨horderly, hrecalls⟩ := Scheduler.schedule_orderly held (List.all_eq_true.mp hop) hs
    exact ⟨horderly, hrecalls.listed hl⟩
  | updateFromOutput env m =>
    obtain ⟨o, rest, outputs, s, hflight, hs, rfl⟩ := step_updateFromOutput hstep
    unfold EngineOp.inFirstSteps at hop
    unfold encoderCalls
    rw [hflight] at hop ⊢
    exact ⟨Scheduler.updateFromOutput_orderly hl hop hs, (Scheduler.updateFromOutput_recalls hs).listed hl⟩
  | finishRequests env ids status =>
    simp only [Engine.step, Result.bind_eq_ok, Result.pure_eq_ok] at hstep
    obtain ⟨s, hs, rfl⟩ := hstep
    refine ⟨Scheduler.finishRequests_orderly fun r hr => ?_, (Scheduler.finishRequests_recalls hs).listed hl⟩
    have hnone := List.all_eq_true.mp hop r hr
    rwa [Bool.not_eq_true'] at hnone
  | resetPrefixCache reset =>
    simp only [Engine.step, Result.bind_eq_ok, Prod.exists, Result.pure_eq_ok] at hstep
    obtain ⟨success, s, hs, rfl⟩ := hstep
    refine ⟨?_, (Scheduler.resetPrefixCache_recalls hs).listed hl⟩
    cases reset with
    | false => trivial
    | true =>
      refine Scheduler.preemptAll_orderly fun r hr => ?_
      rw [EngineOp.inFirstSteps, Bool.not_true, Bool.false_or, List.all_eq_true] at hop
      have hnone := hop r hr
      rwa [Bool.not_eq_true'] at hnone
  | setPauseState p =>
    cases hstep
    exact ⟨trivial, hl⟩

end Engine

structure Lending.Prudent (c : SchedulerConfig) (v : Lending) : Prop where
  solvent : v.engine.sched.encoderCacheManager.Solvent
  conserved : v.SlotsConserved c
  listed : v.engine.sched.Listed

theorem Lending.Prudent.step {c : SchedulerConfig} {v v' : Lending} {op : EngineOp} (h : v.Prudent c)
    (hop : op.inFirstSteps c v.engine = true) (hstep : v.step c op = .ok v') : v'.Prudent c := by
  obtain ⟨hsolvent, hiff⟩ := step_conserved_iff h.solvent hstep
  have hengine := hstep
  simp only [Lending.step, Result.bind_eq_ok, Result.pure_eq_ok] at hengine
  obtain ⟨e, he, rfl⟩ := hengine
  obtain ⟨horderly, hlisted⟩ := Engine.orderly_of_inFirstSteps h.listed hop he
  exact ⟨hsolvent, (hiff h.conserved).mpr horderly, hlisted⟩

/-- In every run in which the requests with encoder embeddings stay in their first steps, the slots are conserved
in every state. -/
theorem slotsConserved_of_inFirstSteps (c : SchedulerConfig) (hd : c.isEncoderDecoder = true) (ops : List EngineOp)
    (h : Guarded (Lending.step c) (fun v op => op.inFirstSteps c v.engine = true) (Lending.init c) ops) :
    Throughout (Lending.step c) (fun v => v.SlotsConserved c) (Lending.init c) ops :=
  throughout_of_inv (fun _ _ _ hprudent hop hstep => Lending.Prudent.step hprudent hop hstep)
    (fun _ hprudent => hprudent.conserved) ⟨Lending.init_solvent hd, Lending.init_conserved, nofun⟩ h

/-! A request with an audio input of three embeddings, in a cache of eight. -/

def whisper : SchedulerConfig where
  kv := { onePool with numGpuBlocks := 16, maxModelLen := 16 }
  policy := .fcfs
  isEncoderDecoder := true
  maxNumRunningReqs := 2
  maxNumScheduledTokens := 8
  maxNumEncoderInputTokens := 8
  encoderCacheSize := 8

def audio : RequestParams where
  requestId := "a"
  promptTokenIds := some [1, 2]
  samplingParams := some { maxTokens := 4 }
  mmFeatures := [⟨"x", ⟨0, 3, none⟩⟩]

def text : RequestParams where
  requestId := "t"
  promptTokenIds := some [5]
  samplingParams := some { maxTokens := 2 }

def firstStep : List EngineOp :=
  [.addRequest {} audio, .schedule {}, .updateFromOutput {} { sampledTokenIds := fun _ => [9] }]

def textFirst : List EngineOp :=
  [.addRequest {} text, .schedule {}, .updateFromOutput {} { sampledTokenIds := fun _ => [7] }, .schedule {},
   .updateFromOutput {} { sampledTokenIds := fun _ => [7] }] ++ firstStep

theorem slotsConserved_firstStep : Throughout (Lending.step whisper) (fun v => v.SlotsConserved whisper)
    (Lending.init whisper) textFirst :=
  slotsConserved_of_inFirstSteps whisper rfl textFirst (by decide +kernel)

/-- The second step gives them back once more. -/
theorem not_slotsConserved_secondStep :
    ¬ Throughout (Lending.step whisper) (fun v => v.SlotsConserved whisper) (Lending.init whisper)
      (firstStep ++ [.schedule {}]) ∧
    ∃ v, runSteps (Lending.step whisper) (Lending.init whisper) (firstStep ++ [.schedule {}]) = .ok v ∧
      v.engine.sched.encoderCacheManager.numFreeSlots = 11 ∧ v.held = [] := by
  obtain ⟨v, hrun, hv⟩ := Result.exists_of_holds
    (x := runSteps (Lending.step whisper) (Lending.init whisper) (firstStep ++ [.schedule {}]))
    (p := fun v => v.engine.sched.encoderCacheManager.numFreeSlots = 11 ∧ v.held = [])
    (by decide +kernel)
  rw [decide_eq_true_eq] at hv
  refine ⟨fun h => ?_, v, hrun, hv⟩
  have hle := (h.last hrun).le
  rw [hv.1] at hle
  exact absurd hle (by decide)

end Vllm
