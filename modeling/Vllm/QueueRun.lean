import Vllm.Engine
import Vllm.InvalidStatus
import Vllm.QueueOps

namespace Vllm

open Scheduler

variable {c : SchedulerConfig}

/-- Every unfinished request is in exactly one place of the queues, in `running` iff its status
says so; finished ones are in none; `schedule()` never meets another status. -/
structure Scheduler.QueuesOk (c : SchedulerConfig) (s : Scheduler) : Prop where
  once : ∀ id r, s.requests.get? id = some r → (s.objs r).isFinished = false →
    (s.running ++ s.waiting ++ s.skippedWaiting).count r = 1
  running_iff : ∀ id r, s.requests.get? id = some r → (s.objs r).isFinished = false →
    (r ∈ s.running ↔ (s.objs r).status = .running)
  unfinished : ∀ r ∈ s.running ++ s.waiting ++ s.skippedWaiting, (s.objs r).isFinished = false
  noInvalidStatus : ∀ env, schedule c env s ≠ .error (.runtimeError "Invalid request status")

/-- Each request of the step whose output arrives that is not running and that this output stops is
in `waiting`, and its next streaming update has not arrived. -/
def EngineOp.StopsInWaiting (c : SchedulerConfig) (e : Engine) : EngineOp → Prop
  | .updateFromOutput _ m =>
    ∀ o ∈ e.inFlight.head?, ∀ reqId ∈ o.numScheduledTokens.keys, ∀ r ∈ e.sched.requests.get? reqId,
      (e.sched.objs r).isFinished = false → (e.sched.objs r).status ≠ .running →
      stops c (e.sched.objs r) (m.sampledTokenIds reqId) (m.hasPoolerOutput reqId) = true →
      r ∈ e.sched.waiting ∧ hasQueuedUpdate (e.sched.objs r) = false
  | _ => True

instance EngineOp.StopsInWaiting.decidable (e : Engine) :
    ∀ op : EngineOp, Decidable (op.StopsInWaiting c e)
  | .updateFromOutput _ m => inferInstanceAs (Decidable (∀ o ∈ e.inFlight.head?,
      ∀ reqId ∈ o.numScheduledTokens.keys, ∀ r ∈ e.sched.requests.get? reqId,
      (e.sched.objs r).isFinished = false → (e.sched.objs r).status ≠ .running →
      stops c (e.sched.objs r) (m.sampledTokenIds reqId) (m.hasPoolerOutput reqId) = true →
      r ∈ e.sched.waiting ∧ hasQueuedUpdate (e.sched.objs r) = false))
  | .addRequest .. => isTrue trivial
  | .schedule _ => isTrue trivial
  | .finishRequests .. => isTrue trivial
  | .resetPrefixCache _ => isTrue trivial
  | .setPauseState _ => isTrue trivial

namespace Engine

structure Booked (e : Engine) : Prop where
  kept : e.sched.ledger.Kept e.sched.queued
  exact : e.sched.ledger.Exact e.sched.queued

theorem init_booked : (init c).Booked where
  kept :=
    { nodup := Multiset.nodup_zero
      running_iff := fun r => by simp [init, Scheduler.init, Scheduler.ledger]
      registered := fun r hr => absurd hr.1 (Nat.not_lt_zero r)
      known := fun id r hr => by cases hr
      bound := fun r hr => absurd hr (Multiset.notMem_zero r) }
  exact :=
    { nodup := Multiset.nodup_zero
      mem_iff := fun r => by
        refine ⟨fun h => absurd h (Multiset.notMem_zero r), fun h => ?_⟩
        exact absurd h.1.1 (Nat.not_lt_zero r) }

theorem Booked.mem_places_iff {e : Engine} (h : e.Booked) (r : Ref) :
    r ∈ e.sched.running ++ e.sched.waiting ++ e.sched.skippedWaiting ↔ e.sched.ledger.Live r := by
  have hqueued : r ∈ e.sched.waiting ∨ r ∈ e.sched.skippedWaiting ↔
      e.sched.ledger.Live r ∧ e.sched.ledger.status r ≠ .running :=
    Multiset.mem_add.symm.trans (h.exact.mem_iff r)
  rw [List.append_assoc, List.mem_append, List.mem_append, hqueued]
  by_cases hst : e.sched.ledger.status r = .running
  · have hrun : r ∈ e.sched.running ↔ e.sched.ledger.Live r := by
      refine ⟨fun hr => h.kept.toOk.live hr, fun hr => ?_⟩
      exact (h.kept.running_iff r).mpr ⟨hr.1, hst⟩
    simp [hst, hrun]
  · have hrun : r ∉ e.sched.running := fun hr => hst ((h.kept.running_iff r).mp hr).2
    simp [hst, hrun]

theorem Booked.places_nodup {e : Engine} (h : e.Booked) :
    (e.sched.running ++ e.sched.waiting ++ e.sched.skippedWaiting).Nodup := by
  rw [List.append_assoc, List.nodup_append]
  refine ⟨Multiset.coe_nodup.mp h.kept.nodup, Multiset.coe_nodup.mp h.exact.nodup, ?_⟩
  intro a ha b hb hab
  subst hab
  have hq : a ∈ e.sched.queued := Multiset.mem_add.mpr (List.mem_append.mp hb)
  exact ((h.exact.mem_iff a).mp hq).2 ((h.kept.running_iff a).mp ha).2

theorem Booked.queuesOk {e : Engine} (h : e.Booked) : e.sched.QueuesOk c where
  once id r hget hf := by
    have hlive : e.sched.ledger.Live r := h.kept.toOk.live_of_get? hget hf
    exact List.count_eq_one_of_mem h.places_nodup ((h.mem_places_iff r).mpr hlive)
  running_iff id r hget hf := by
    refine (h.kept.running_iff r).trans ⟨fun hr => hr.2, fun hst => ?_⟩
    exact ⟨(h.kept.known id r hget).1, hst⟩
  unfinished r hr := ((h.mem_places_iff r).mp hr).2
  noInvalidStatus env := (schedule_avoids h.kept h.exact).ne rfl

theorem Booked.of_follows {e e' : Engine} (h : e.Booked)
    (hf : Ledger.Follows e.sched.ledger e.sched.queued e'.sched.ledger e'.sched.queued) :
    e'.Booked :=
  ⟨hf.1, hf.2 h.exact⟩

theorem Booked.allStopInWaiting {e : Engine} (h : e.Booked) {env : Outside}
    {m : ModelRunnerOutput} {o : SchedulerOutput} {rest : List SchedulerOutput}
    (hflight : e.inFlight = o :: rest)
    (hop : (EngineOp.updateFromOutput env m).StopsInWaiting c e) :
    AllStopInWaiting c e.sched m o.numScheduledTokens.keys := by
  intro id hid r hlt hrid hf
  have hget : e.sched.requests.get? id = some r := hrid ▸ h.kept.registered r ⟨hlt, hf⟩
  exact hop o (by rw [hflight]; rfl) id hid r hget hf

theorem Booked.step {e e' : Engine} (h : e.Booked) {op : EngineOp} (hop : op.StopsInWaiting c e)
    (hstep : e.step c op = .ok e') : e'.Booked := by
  cases op with
  | addRequest env params =>
    simp only [Engine.step, Result.bind_eq_ok, Result.pure_eq_ok] at hstep
    obtain ⟨s, hs, rfl⟩ := hstep
    exact h.of_follows (addRequest_books h.kept hs)
  | schedule env =>
    simp only [Engine.step, Result.bind_eq_ok, Prod.exists, Result.pure_eq_ok] at hstep
    obtain ⟨o, s, hs, rfl⟩ := hstep
    exact h.of_follows (schedule_books h.kept (fun _ => h.exact) hs)
  | updateFromOutput env m =>
    obtain ⟨o, rest, outputs, s, hflight, hs, rfl⟩ := step_updateFromOutput hstep
    obtain ⟨hkept, hexact⟩ := updateFromOutput_books h.kept hs
    exact ⟨hkept, hexact h.exact (h.allStopInWaiting hflight hop)⟩
  | finishRequests env ids status =>
    simp only [Engine.step, Result.bind_eq_ok, Result.pure_eq_ok] at hstep
    obtain ⟨s, hs, rfl⟩ := hstep
    exact h.of_follows (finishRequests_books h.kept hs)
  | resetPrefixCache reset =>
    simp only [Engine.step, Result.bind_eq_ok, Prod.exists, Result.pure_eq_ok] at hstep
    obtain ⟨success, s, hs, rfl⟩ := hstep
    exact h.of_follows (resetPrefixCache_books h.kept hs)
  | setPauseState p =>
    cases hstep
    exact ⟨h.kept, h.exact⟩

end Engine

/-- In every run where the preempted requests that stop are still in `waiting`, the queues are right
in every state. -/
theorem queuesOk_of_stopsInWaiting (c : SchedulerConfig) (ops : List EngineOp)
    (h : Guarded (Engine.step c) (fun e op => op.StopsInWaiting c e) (Engine.init c) ops) :
    Throughout (Engine.step c) (fun e => e.sched.QueuesOk c) (Engine.init c) ops :=
  throughout_of_inv (fun _ _ _ hbooked hop hstep => hbooked.step hop hstep)
    (fun _ hbooked => hbooked.queuesOk) Engine.init_booked h

/-! A pipelined engine, where a forced reset preempts a request whose step is in flight. -/

def onePool : KVCacheManagerConfig where
  numGpuBlocks := 4
  enableCaching := false
  hashBlockSize := 1
  maxModelLen := 8
  useEagle := false
  kvCacheGroups := [.fullAttention ⟨1, 1, 1, .float16, none⟩ 1 none none]

def pipelined : SchedulerConfig where
  kv := onePool
  policy := .fcfs
  maxNumRunningReqs := 2
  maxNumScheduledTokens := 8
  usePp := true

def session (promptTokenIds : List Token) : RequestParams where
  requestId := "r"
  promptTokenIds := some promptTokenIds
  samplingParams := some { maxTokens := 1 }
  resumable := true

/-- The preempted request stops and waits for its next input. -/
def stopsWhilePreempted : List EngineOp :=
  [.addRequest {} (session [1]), .schedule {}, .resetPrefixCache true,
   .updateFromOutput {} { sampledTokenIds := fun _ => [5] }]

theorem queuesOk_stopsWhilePreempted : Throughout (Engine.step pipelined)
    (fun e => e.sched.QueuesOk pipelined) (Engine.init pipelined) stopsWhilePreempted :=
  queuesOk_of_stopsInWaiting pipelined stopsWhilePreempted (by decide +kernel)

def continuesWhilePreempted : List EngineOp :=
  [.addRequest {} (session [1]), .schedule {}, .addRequest {} (session [2]),
   .resetPrefixCache true, .updateFromOutput {} { sampledTokenIds := fun _ => [5] }]

theorem not_queuesOk_continuesWhilePreempted :
    ¬ Throughout (Engine.step pipelined) (fun e => e.sched.QueuesOk pipelined)
      (Engine.init pipelined) continuesWhilePreempted ∧
    ∃ e, runSteps (Engine.step pipelined) (Engine.init pipelined) continuesWhilePreempted = .ok e ∧
      e.sched.requests.get? "r" = some 0 ∧ (e.sched.objs 0).isFinished = false ∧
      e.sched.running = [] ∧ e.sched.waiting = [] ∧ e.sched.skippedWaiting = [] := by
  obtain ⟨e, hrun, he⟩ := Result.exists_of_holds
    (x := runSteps (Engine.step pipelined) (Engine.init pipelined) continuesWhilePreempted)
    (p := fun e => e.sched.requests.get? "r" = some 0 ∧ (e.sched.objs 0).isFinished = false ∧
      e.sched.running = [] ∧ e.sched.waiting = [] ∧ e.sched.skippedWaiting = [])
    (by decide +kernel)
  rw [decide_eq_true_eq] at he
  refine ⟨fun h => ?_, e, hrun, he⟩
  obtain ⟨hget, hf, hrunning, hwaiting, hskipped⟩ := he
  have honce := (h.last hrun).once "r" 0 hget hf
  rw [hrunning, hwaiting, hskipped] at honce
  cases honce

end Vllm
