import Vllm.SchedulerUpdate
import Vllm.Lib.Run

/-! The calls the engine core makes to its scheduler. Steps that have been scheduled are in flight
until their output arrives; outputs arrive in order. -/

namespace Vllm

structure Engine where
  sched : Scheduler
  inFlight : List SchedulerOutput := []

inductive EngineOp
  | addRequest (env : Outside) (params : RequestParams)
  | schedule (env : Outside)
  | updateFromOutput (env : Outside) (m : ModelRunnerOutput)
  | finishRequests (env : Outside) (requestIds : Option (List ReqId)) (status : RequestStatus)
  | resetPrefixCache (resetRunningRequests : Bool)
  | setPauseState (pauseState : PauseState)

namespace Engine

def init (c : SchedulerConfig) : Engine := { sched := Scheduler.init c }

def step (c : SchedulerConfig) (e : Engine) : EngineOp → Result Engine
  | .addRequest env params => do
    let sched ← Scheduler.addRequest c env e.sched params
    return { e with sched }
  | .schedule env => do
    let (o, sched) ← Scheduler.schedule c env e.sched
    return { sched, inFlight := e.inFlight ++ [o] }
  | .updateFromOutput env m =>
    match e.inFlight with
    | [] => .error .indexError
    | o :: inFlight => do
      let (_, sched) ← Scheduler.updateFromOutput c env e.sched o m
      return { sched, inFlight }
  | .finishRequests env requestIds status => do
    let sched ← Scheduler.finishRequests c env e.sched requestIds status
    return { e with sched }
  | .resetPrefixCache resetRunningRequests => do
    let (_, sched) ← Scheduler.resetPrefixCache c e.sched resetRunningRequests
    return { e with sched }
  | .setPauseState pauseState => .ok { e with sched := { e.sched with pauseState } }

variable {c : SchedulerConfig} {e e' : Engine}

theorem step_updateFromOutput {env : Outside} {m : ModelRunnerOutput}
    (h : e.step c (.updateFromOutput env m) = .ok e') :
    ∃ o rest outputs s, e.inFlight = o :: rest ∧
      Scheduler.updateFromOutput c env e.sched o m = .ok (outputs, s) ∧
      e' = { sched := s, inFlight := rest } := by
  simp only [step] at h
  split at h
  · cases h
  · rename_i o rest hflight
    simp only [Result.bind_eq_ok, Prod.exists, Result.pure_eq_ok] at h
    obtain ⟨outputs, s, hs, rfl⟩ := h
    exact ⟨o, rest, outputs, s, hflight, hs, rfl⟩

end Engine

end Vllm
