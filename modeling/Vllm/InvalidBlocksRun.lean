import Vllm.InvalidBlocks
import Vllm.QueueRun
import Vllm.RunningFrame

namespace Vllm

open Scheduler

variable {c : SchedulerConfig} {env : Outside}

namespace Step

variable {st st' : Step}

def admitted (st : Step) : List Ref := st.scheduledNewReqs ++ st.scheduledResumedReqs

def KeepsRecorded (st st' : Step) : Prop :=
  ∀ r ∈ st'.sched.running, r ∉ st'.admitted → r ∈ st.sched.running ∧ r ∉ st.admitted ∧
    (st'.sched.objs r).numCachedTokens = (st.sched.objs r).numCachedTokens

theorem KeepsRecorded.refl (st : Step) : KeepsRecorded st st := fun _ hr hadm => ⟨hr, hadm, rfl⟩

theorem KeepsRecorded.trans {st₁ : Step} (h : KeepsRecorded st st₁) (h' : KeepsRecorded st₁ st') :
    KeepsRecorded st st' := by
  intro r hr hadm
  obtain ⟨hr₁, hadm₁, hcached₁⟩ := h' r hr hadm
  obtain ⟨hr₀, hadm₀, hcached₀⟩ := h r hr₁ hadm₁
  exact ⟨hr₀, hadm₀, hcached₁.trans hcached₀⟩

theorem keepsRecorded_of (hrun : ∀ r ∈ st'.sched.running, r ∈ st.sched.running)
    (hadm : st'.admitted = st.admitted)
    (hcached : ∀ r ∈ st.sched.running,
      (st'.sched.objs r).numCachedTokens = (st.sched.objs r).numCachedTokens) :
    KeepsRecorded st st' :=
  fun r hr hnot => ⟨hrun r hr, hadm ▸ hnot, hcached r (hrun r hr)⟩

theorem cached_update {s s' : Scheduler} {r : Ref} {q : Request}
    (hobjs : s'.objs = Function.update s.objs r q)
    (hq : q.numCachedTokens = (s.objs r).numCachedTokens) (x : Ref) :
    (s'.objs x).numCachedTokens = (s.objs x).numCachedTokens := by
  rw [hobjs, Function.update_apply]
  split
  · rename_i heq
    rw [heq, hq]
  · rfl

theorem admitRequest_keepsRecorded {skipped : Bool} {n : Int} {pre : ComputedPrefix}
    {plan : EncoderPlan} (h : st.admitRequest c skipped n pre plan = .ok st') :
    KeepsRecorded st st' := by
  obtain ⟨r, s, new, resumed, loras, hpop, hstatus, h⟩ := admitRequest_eq_ok h
  obtain ⟨-, -, waiting, skippedWaiting, rfl⟩ := popSelected_eq_ok hpop
  obtain ⟨e, inputs, budget, rfl⟩ := scheduleEncoder_frame h
  have hadm : ∀ x, x ∈ new ++ resumed ↔ x ∈ st.admitted ∨ x = r := by
    intro x
    rcases hstatus with ⟨-, rfl, rfl⟩ | ⟨-, rfl, rfl⟩
    · simp only [admitted, List.mem_append, List.mem_singleton]
      tauto
    · simp only [admitted, List.mem_append, List.mem_singleton]
      tauto
  intro x hx hnot
  have hnot' : x ∉ st.admitted ∧ x ≠ r := not_or.1 (mt (hadm x).2 hnot)
  have hrun : x ∈ st.sched.running := by
    refine (List.mem_append.1 hx).resolve_right fun h => hnot'.2 (List.mem_singleton.1 h)
  refine ⟨hrun, hnot'.1, ?_⟩
  exact congrArg Request.numCachedTokens (Function.update_of_ne hnot'.2 _ _)

theorem takeVictim_admitted {i j : Nat} {v : Ref} (hn : st.sched.running.Nodup)
    (h : st.takeVictim c i = .ok (v, j, st')) : st'.admitted = st.admitted := by
  obtain ⟨-, ⟨-, -, -, rfl⟩ | ⟨-, -, -, hun⟩⟩ := takeVictim_cases hn h
  · rfl
  · obtain ⟨n, -, rfl⟩ := unschedule_eq_ok hun
    rfl

theorem Move.keepsRecorded (hm : Move c env st st') (hk : st.sched.ledger.Kept st.queued) :
    KeepsRecorded st st' := by
  cases hm with
  | encoder => exact .refl _
  | noSlots => exact .refl _
  | preempt _ _ hv hp =>
    obtain ⟨-, hsched, -⟩ := takeVictim_frame (Multiset.coe_nodup.mp hk.nodup) hv
    have hadm := takeVictim_admitted (Multiset.coe_nodup.mp hk.nodup) hv
    obtain ⟨s, hs, rfl⟩ := preempt_eq_ok hp
    obtain ⟨-, rfl⟩ := preemptRequest_eq_ok hs
    rw [hsched]
    exact keepsRecorded_of (fun x hx => List.mem_of_mem_erase hx) hadm fun _ _ =>
      cached_update rfl (by rfl) _
  | run _ _ _ _ _ _ _ h =>
    obtain ⟨e, inputs, budget, rfl⟩ := scheduleEncoder_frame h
    exact keepsRecorded_of (fun _ hr => hr) rfl fun _ _ =>
        cached_update rfl (by rfl) _
  | loras h =>
    obtain ⟨loras, rfl⟩ := recordLoras_frame h
    exact .refl _
  | promote _ _ h =>
    rcases tryPromote_cases h with ⟨h, -⟩ | ⟨-, hst, rfl⟩ | ⟨-, hst, a, b, kv, d, e, rfl⟩
    · cases h
    · exact keepsRecorded_of (fun _ hr => hr) rfl fun _ _ =>
        cached_update rfl (by rfl) _
    · refine keepsRecorded_of (fun _ hr => hr) rfl fun x hx => ?_
      have hrun := ((hk.running_iff x).1 hx).2
      refine congrArg Request.numCachedTokens (Function.update_of_ne ?_ _ _)
      rintro rfl
      exact absurd (hst.symm.trans hrun) (by decide)
  | skip h =>
    simp only [skipSelected, Result.bind_eq_ok, Prod.exists, Result.pure_eq_ok] at h
    obtain ⟨r, s, hpop, rfl⟩ := h
    obtain ⟨-, -, waiting, skippedWaiting, rfl⟩ := popSelected_eq_ok hpop
    exact keepsRecorded_of (fun _ hr => hr) rfl fun _ _ => rfl
  | computed h =>
    rcases computedPrefix_frame h with rfl | ⟨-, ext, rfl⟩
    · exact .refl _
    · exact keepsRecorded_of (fun _ hr => hr) rfl fun _ _ =>
        cached_update rfl (by rfl) _
  | noRoom =>
    split
    · exact .refl _
    · exact .refl _
  | load _ _ _ h =>
    simp only [startLoad, Result.bind_eq_ok, Prod.exists, Result.pure_eq_ok] at h
    obtain ⟨r, s, hpop, rfl⟩ := h
    obtain ⟨-, -, waiting, skippedWaiting, rfl⟩ := popSelected_eq_ok hpop
    refine keepsRecorded_of (fun _ hr => hr) rfl fun x _ => ?_
    have hfirst : ((st.sched.modify r fun q =>
        { q with status := .waitingForRemoteKvs }).objs x).numCachedTokens =
        (st.sched.objs x).numCachedTokens := cached_update rfl (by rfl) x
    exact (cached_update rfl (by rfl) x).trans hfirst
  | admitRequest _ _ _ _ _ _ h =>
    have hadm := admitRequest_keepsRecorded h
    exact hadm
  | requeue => exact keepsRecorded_of (fun _ hr => hr) rfl fun _ _ => rfl

theorem scheduleRequests_keepsRecorded {s : Scheduler} (hk : s.ledger.Kept s.queued)
    (hload : c.hasConnector = true → s.ledger.Exact s.queued)
    (h : scheduleRequests c env s = .ok st) :
    ∀ r ∈ st.sched.running, r ∉ st.admitted → r ∈ s.running ∧
      (st.sched.objs r).numCachedTokens = (s.objs r).numCachedTokens := by
  have hstart : (start c s).queued = s.queued := Multiset.add_zero _
  have hmoves := scheduleRequests_moves (Multiset.coe_nodup.mp hk.nodup) h
  have hkeeps : ∀ st', Moves c env (start c s) st' → KeepsRecorded (start c s) st' := by
    intro st' hm
    induction hm with
    | refl => exact .refl _
    | tail hms hm ih =>
      have hbooks := Moves.keepsBooks hms (by rw [hstart]; exact hk) (by rw [hstart]; exact hload)
      exact ih.trans (hm.keepsRecorded hbooks.1)
  intro r hr hadm
  obtain ⟨hrun, -, hcached⟩ := hkeeps st hmoves r hr hadm
  exact ⟨hrun, hcached⟩

end Step

/-- Not in the source: the computed tokens that each request had when its prefix was found or loaded,
after a load from remote those that were loaded. -/
def recordLoaded (s : Scheduler) (st : Step) (loaded : Ref → Int) (r : Ref) : Int :=
  if ((s.objs r).status = .waitingForRemoteKvs ∧
        (st.sched.objs r).status ≠ .waitingForRemoteKvs) ∨
      (r ∈ st.admitted ∧ (s.objs r).numComputedTokens = 0) then
    (st.sched.objs r).numComputedTokens
  else loaded r

/-- The engine together with what was loaded. -/
structure LoadingEngine where
  engine : Engine
  loaded : Ref → Int := fun _ => 0

namespace LoadingEngine

def init (c : SchedulerConfig) : LoadingEngine := { engine := Engine.init c }

def step (c : SchedulerConfig) (l : LoadingEngine) : EngineOp → Result LoadingEngine
  | .schedule env => do
    let st ← Step.scheduleRequests c env l.engine.sched
    let engine ← l.engine.step c (.schedule env)
    return { engine, loaded := recordLoaded l.engine.sched st l.loaded }
  | op => do
    let engine ← l.engine.step c op
    return { l with engine }

/-- A request that is admitted again has no more computed blocks than were recorded when it was
admitted first. -/
def recordsLoads (c : SchedulerConfig) (l : LoadingEngine) : EngineOp → Bool
  | .schedule env =>
    match Step.scheduleRequests c env l.engine.sched with
    | .ok st => st.admitted.all fun r =>
      numComputedBlocks c (recordLoaded l.engine.sched st l.loaded r) ≤
        numComputedBlocks c (st.sched.objs r).numCachedTokens
    | .error _ => true
  | _ => true

structure Covered (c : SchedulerConfig) (l : LoadingEngine) : Prop extends l.engine.Booked where
  covers : ∀ r ∈ l.engine.sched.running,
    numComputedBlocks c (l.loaded r) ≤ numComputedBlocks c (l.engine.sched.objs r).numCachedTokens

variable {l l' : LoadingEngine}

theorem init_covered : (init c).Covered c where
  toBooked := Engine.init_booked
  covers := nofun

theorem Covered.refs (h : l.Covered c) : l.engine.sched.RefsOk :=
  refsOk_of_kept h.kept (fun _ hr => Multiset.mem_add.2 (.inl hr))
    fun _ hr => Multiset.mem_add.2 (.inr hr)

theorem Covered.handled (h : l.Covered c) (hrecompute : c.recomputeKvLoadFailures = true)
    {invalid : List BlockId} {failed : List ReqId} {s' : Scheduler}
    (hok : handleInvalidBlocks c l.engine.sched invalid = .ok (failed, s')) :
    LoadsHandled c l.loaded l.engine.sched invalid failed s' := by
  refine handleInvalidBlocks_handled hrecompute (Multiset.coe_nodup.1 h.kept.nodup) ?_
    (fun r hr => ((h.kept.running_iff r).1 hr).2) h.covers hok
  have hqueued : (l.engine.sched.waiting ++ l.engine.sched.skippedWaiting).Nodup :=
    Multiset.coe_nodup.1 h.exact.nodup
  exact (List.nodup_append.1 hqueued).2.1

theorem Covered.carries {engine : Engine} (h : l.Covered c) (hbooked : engine.Booked)
    (hc : Carries l.engine.sched engine.sched) :
    ({ l with engine } : LoadingEngine).Covered c where
  toBooked := hbooked
  covers := by
    intro r hr
    have hrun := hc.running.subset hr
    rw [(hc.record r (h.refs.running r hrun)).cached]
    exact h.covers r hrun

theorem Covered.schedule {env : Outside} {st : Step} {engine : Engine} (h : l.Covered c)
    (hst : Step.scheduleRequests c env l.engine.sched = .ok st)
    (hcovers : ∀ r ∈ st.admitted, numComputedBlocks c (recordLoaded l.engine.sched st l.loaded r) ≤
      numComputedBlocks c (st.sched.objs r).numCachedTokens)
    (hstep : l.engine.step c (.schedule env) = .ok engine) :
    ({ engine, loaded := recordLoaded l.engine.sched st l.loaded } : LoadingEngine).Covered c := by
  have hbooked := @Engine.Booked.step _ _ _ h.toBooked (.schedule env) trivial hstep
  simp only [Engine.step, Scheduler.schedule, Result.bind_eq_ok, Prod.exists,
    Result.pure_eq_ok] at hstep
  obtain ⟨o, s, ⟨st', hst', o₁, s₁, hout, hafter⟩, rfl⟩ := hstep
  cases hst.symm.trans hst'
  have hbooks := (Step.scheduleRequests_books h.kept (fun _ => h.exact) hst).1
  have hrefs : st.sched.RefsOk := by
    refine refsOk_of_kept hbooks (fun r hr => ?_) fun r hr => ?_
    · exact Multiset.mem_add.2 (.inl (Multiset.mem_add.2 (.inl hr)))
    · exact Multiset.mem_add.2 (.inl (Multiset.mem_add.2 (.inr hr)))
  have hout := makeOutput_carries hrefs hout
  have hc := hout.trans (updateAfterSchedule_carries hout.refs hafter)
  refine ⟨hbooked, fun r hr => ?_⟩
  have hrun := hc.running.subset hr
  show numComputedBlocks c (recordLoaded l.engine.sched st l.loaded r) ≤ _
  rw [(hc.record r (hrefs.running r hrun)).cached]
  by_cases hadm : r ∈ st.admitted
  · exact hcovers r hadm
  · obtain ⟨hold, hcached⟩ :=
      Step.scheduleRequests_keepsRecorded h.kept (fun _ => h.exact) hst r hrun hadm
    have hstatus : (l.engine.sched.objs r).status = .running := ((h.kept.running_iff r).1 hold).2
    rw [recordLoaded, if_neg, hcached]
    · exact h.covers r hold
    · rintro (⟨hwait, -⟩ | ⟨hin, -⟩)
      · rw [hstatus] at hwait
        cases hwait
      · exact hadm hin

theorem Covered.step (h : l.Covered c) {op : EngineOp} (hop : op.StopsInWaiting c l.engine)
    (hloads : recordsLoads c l op = true) (hstep : l.step c op = .ok l') : l'.Covered c := by
  cases op with
  | schedule env =>
    simp only [LoadingEngine.step, Result.bind_eq_ok, Result.pure_eq_ok] at hstep
    obtain ⟨st, hst, engine, hengine, rfl⟩ := hstep
    refine h.schedule hst ?_ hengine
    simpa only [recordsLoads, hst, List.all_eq_true, decide_eq_true_eq] using hloads
  | addRequest env params =>
    simp only [LoadingEngine.step, Result.bind_eq_ok, Result.pure_eq_ok] at hstep
    obtain ⟨engine, hengine, rfl⟩ := hstep
    refine h.carries (h.toBooked.step hop hengine) ?_
    simp only [Engine.step, Result.bind_eq_ok, Result.pure_eq_ok] at hengine
    obtain ⟨s, hs, rfl⟩ := hengine
    exact addRequest_carries h.refs hs
  | updateFromOutput env m =>
    simp only [LoadingEngine.step, Result.bind_eq_ok, Result.pure_eq_ok] at hstep
    obtain ⟨engine, hengine, rfl⟩ := hstep
    refine h.carries (h.toBooked.step hop hengine) ?_
    obtain ⟨o, rest, outputs, s, -, hs, rfl⟩ := Engine.step_updateFromOutput hengine
    exact updateFromOutput_carries h.refs hs
  | finishRequests env ids status =>
    simp only [LoadingEngine.step, Result.bind_eq_ok, Result.pure_eq_ok] at hstep
    obtain ⟨engine, hengine, rfl⟩ := hstep
    refine h.carries (h.toBooked.step hop hengine) ?_
    simp only [Engine.step, Result.bind_eq_ok, Result.pure_eq_ok] at hengine
    obtain ⟨s, hs, rfl⟩ := hengine
    exact finishRequests_carries h.refs hs
  | resetPrefixCache reset =>
    simp only [LoadingEngine.step, Result.bind_eq_ok, Result.pure_eq_ok] at hstep
    obtain ⟨engine, hengine, rfl⟩ := hstep
    refine h.carries (h.toBooked.step hop hengine) ?_
    simp only [Engine.step, Result.bind_eq_ok, Prod.exists, Result.pure_eq_ok] at hengine
    obtain ⟨success, s, hs, rfl⟩ := hengine
    exact resetPrefixCache_carries h.refs hs
  | setPauseState p =>
    simp only [LoadingEngine.step, Result.bind_eq_ok, Result.pure_eq_ok] at hstep
    obtain ⟨engine, hengine, rfl⟩ := hstep
    refine h.carries (h.toBooked.step hop hengine) ?_
    cases hengine
    exact h.refs.carries_of rfl (fun _ => .refl _) (List.Sublist.refl _) h.refs.waiting
      h.refs.skippedWaiting fun _ _ => id

/-- Whatever blocks are reported, no request goes on with one of them. -/
def TrustsNone (c : SchedulerConfig) (l : LoadingEngine) : Prop :=
  ∀ invalid failed s', handleInvalidBlocks c l.engine.sched invalid = .ok (failed, s') →
    LoadsHandled c l.loaded l.engine.sched invalid failed s'

end LoadingEngine

/-- In every run where no request is admitted again with a longer prefix than was recorded, and no
request is queued twice, no invalid block is trusted. -/
theorem trustsNone_of_recordsLoads (c : SchedulerConfig) (hrecompute : c.recomputeKvLoadFailures = true)
    (ops : List EngineOp)
    (h : Guarded (LoadingEngine.step c)
      (fun l op => op.StopsInWaiting c l.engine ∧ LoadingEngine.recordsLoads c l op = true)
      (LoadingEngine.init c) ops) :
    Throughout (LoadingEngine.step c) (fun l => l.TrustsNone c) (LoadingEngine.init c) ops :=
  throughout_of_inv
    (fun _ _ _ (hinv : LoadingEngine.Covered c _) hop hstep => hinv.step hop.1 hop.2 hstep)
    (fun _ hinv _ _ _ hok => hinv.handled hrecompute hok) LoadingEngine.init_covered h

/-! An engine with a connector that loads within the step. -/

def loadsFromRemote : SchedulerConfig where
  kv :=
    { numGpuBlocks := 9
      enableCaching := false
      hashBlockSize := 2
      maxModelLen := 16
      useEagle := false
      kvCacheGroups := [.fullAttention ⟨2, 1, 1, .float16, none⟩ 2 none none] }
  policy := .fcfs
  maxNumRunningReqs := 2
  maxNumScheduledTokens := 16
  hasConnector := true

def fivePrompt : RequestParams where
  requestId := "r"
  promptTokenIds := some [1, 2, 3, 4, 5]
  samplingParams := some { maxTokens := 4 }

def fourTokens : Outside where
  getNumNewMatchedTokens := fun _ _ => (some 4, false)

def loadedAtFirst : List EngineOp :=
  [.addRequest {} fivePrompt, .schedule fourTokens,
   .updateFromOutput {}
    { sampledTokenIds := fun _ => [7], kvConnectorOutput := some { invalidBlockIds := [2] } },
   .schedule {}]

theorem trustsNone_loadedAtFirst : Throughout (LoadingEngine.step loadsFromRemote)
    (fun l => l.TrustsNone loadsFromRemote) (LoadingEngine.init loadsFromRemote) loadedAtFirst :=
  trustsNone_of_recordsLoads loadsFromRemote rfl loadedAtFirst (by decide +kernel)

/-- The request starts without a hit, is preempted, and its next start loads two blocks. -/
def loadedWhenResumed : List EngineOp :=
  [.addRequest {} fivePrompt, .schedule {},
   .updateFromOutput {} { sampledTokenIds := fun _ => [7] }, .resetPrefixCache true,
   .schedule fourTokens]

theorem not_trustsNone_loadedWhenResumed : ∃ l s',
    runSteps (LoadingEngine.step loadsFromRemote) (LoadingEngine.init loadsFromRemote)
      loadedWhenResumed = .ok l ∧
    0 ∈ l.engine.sched.running ∧ 4 ∈ loadedBlocks loadsFromRemote l.loaded l.engine.sched 0 ∧
    handleInvalidBlocks loadsFromRemote l.engine.sched [4] = .ok ([], s') ∧
    (s'.objs 0).numComputedTokens = 6 ∧ ¬ l.TrustsNone loadsFromRemote := by
  obtain ⟨l, hrun, hl⟩ := Result.exists_of_holds
    (x := runSteps (LoadingEngine.step loadsFromRemote) (LoadingEngine.init loadsFromRemote)
      loadedWhenResumed)
    (p := fun l => 0 ∈ l.engine.sched.running ∧
      4 ∈ loadedBlocks loadsFromRemote l.loaded l.engine.sched 0 ∧
      (handleInvalidBlocks loadsFromRemote l.engine.sched [4]).holds
        fun u => u.1 = [] ∧ (u.2.objs 0).numComputedTokens = 6)
    (by decide +kernel)
  rw [decide_eq_true_eq] at hl
  obtain ⟨hrunning, hloaded, hhandled⟩ := hl
  obtain ⟨⟨failed, s'⟩, hok, hu⟩ := Result.exists_of_holds hhandled
  rw [decide_eq_true_eq] at hu
  obtain ⟨rfl, hcomputed⟩ := hu
  refine ⟨l, s', hrun, hrunning, hloaded, hok, hcomputed, fun h => ?_⟩
  have haff := (h _ _ _ hok).affected 0 (.inl hrunning) 4 hloaded (List.mem_singleton_self 4)
  rcases haff with ⟨-, hin⟩ | ⟨hnot, -⟩
  · cases hin
  · exact hnot hrunning

end Vllm
