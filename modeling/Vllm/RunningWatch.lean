import Vllm.Lib.TakeErase
import Vllm.QueueSchedule

namespace Vllm

namespace Step

open Scheduler

/-- A request preempted for another one, with the state and the index before. -/
structure Preemption where
  state : Step
  reqIndex : Nat
  victim : Ref

/-- The request that moves in front of the index when the victim is taken out: the index stays where
it is if the victim is not scheduled. -/
def Preemption.shifted (p : Preemption) : Option Ref :=
  if p.victim ∈ p.state.sched.running.take (p.reqIndex + 1) ∧ p.victim ∉ p.state.scheduledRunningReqs then
    p.state.sched.running[p.reqIndex + 1]?
  else none

inductive LoopEnd
  | exhausted
  | outOfBudget
  | preempted
  | unfinished
  deriving DecidableEq, Repr

structure Log where
  examined : List Ref := []
  preemptions : List Preemption := []
  ending : LoopEnd

def Log.after (log : Log) (r : Ref) (preemptions : List Preemption) : Log :=
  { log with examined := r :: log.examined, preemptions := preemptions ++ log.preemptions }

variable (c : SchedulerConfig) (env : Outside)

def preemptionsFor (r : Ref) (numNewTokens : Int) : Nat → Nat → Step → List Preemption
  | 0, _, _ => []
  | fuel + 1, reqIndex, st =>
    (st.sched.kvCacheManager.allocateSlots c.kv (st.sched.objs r) numNewTokens
      { numLookaheadTokens := c.numLookaheadTokens }).collect fun slots =>
      match slots with
      | (some _, _) => []
      | (none, kv) =>
        ((st.withKv kv).takeVictim c reqIndex).collect fun taken =>
          (taken.2.2.preempt c taken.1).collect fun st' =>
            if taken.1 = r then []
            else ⟨st.withKv kv, reqIndex, taken.1⟩ :: preemptionsFor r numNewTokens fuel taken.2.1 st'

def roundPreemptions (st : Step) (reqIndex : Nat) (r : Ref) : List Preemption :=
  let request := st.sched.objs r
  if reachesMaxTokens request then []
  else
    (tryScheduleEncoderInputs c env st.sched request request.numComputedTokens
      (runningNewTokens c st request) st.encoderComputeBudget).collect fun plan =>
      (alignedNewTokens c request plan.numNewTokens 0 0).collect fun numNewTokens =>
        if numNewTokens = 0 then []
        else preemptionsFor c r numNewTokens (st.sched.running.length + 1) reqIndex (st.withEncoder plan.encoder)

def watchRunning : Nat → Nat → Step → Log
  | 0, _, _ => { ending := .unfinished }
  | fuel + 1, reqIndex, st =>
    if st.tokenBudget > 0 then
      match st.sched.running[reqIndex]? with
      | none => { ending := .exhausted }
      | some r =>
        match st.visitRunning c env reqIndex r with
        | .error _ => { ending := .unfinished }
        | .ok (false, _, _) =>
          { examined := [r], preemptions := roundPreemptions c env st reqIndex r, ending := .preempted }
        | .ok (true, reqIndex', st') =>
          (watchRunning fuel reqIndex' st').after r (roundPreemptions c env st reqIndex r)
    else { ending := .outOfBudget }

variable {c env} {st st₁ st' : Step} {r v : Ref} {n : Int} {i j j' fuel : Nat} {ps : List Preemption}

inductive Victims (c : SchedulerConfig) (r : Ref) (n : Int) : Nat → Step → List Preemption → Nat → Step → Prop
  | nil {j : Nat} {st : Step} : Victims c r n j st [] j st
  | cons {j j₁ j' : Nat} {st st₁ st₂ st' : Step} {kv : KVCacheManager} {v : Ref} {ps : List Preemption} :
      (st.withKv kv).takeVictim c j = .ok (v, j₁, st₁) → st₁.preempt c v = .ok st₂ → v ≠ r →
      Victims c r n j₁ st₂ ps j' st' → Victims c r n j st (⟨st.withKv kv, j, v⟩ :: ps) j' st'

theorem allocateOrPreempt_victims {blocks : List (List BlockId)}
    (h : allocateOrPreempt c r n fuel j st = .ok (some blocks, j', st')) :
    ∃ st₁ kv, Victims c r n j st (preemptionsFor c r n fuel j st) j' st₁ ∧ st' = st₁.withKv kv := by
  induction fuel generalizing j st with
  | zero => cases h
  | succ fuel ih =>
    simp only [allocateOrPreempt, Result.bind_eq_ok, Prod.exists] at h
    obtain ⟨newBlocks, kv, halloc, h⟩ := h
    unfold preemptionsFor
    rw [halloc, Result.collect_ok]
    cases newBlocks with
    | some b =>
      cases h
      exact ⟨st, kv, .nil, rfl⟩
    | none =>
      simp only [Result.bind_eq_ok, Prod.exists] at h
      obtain ⟨v, j₁, st₁, hvictim, st₂, hpre, h⟩ := h
      dsimp only
      rw [hvictim, Result.collect_ok, hpre, Result.collect_ok]
      split at h
      · cases h
      · rename_i hne
        rw [if_neg hne]
        obtain ⟨st₃, kv₃, hvictims, hst⟩ := ih h
        exact ⟨st₃, kv₃, .cons hvictim hpre hne hvictims, hst⟩

theorem allocateOrPreempt_none (h : allocateOrPreempt c r n fuel j st = .ok (none, j', st')) :
    r ∈ st'.preemptedReqs := by
  induction fuel generalizing j st with
  | zero => cases h
  | succ fuel ih =>
    simp only [allocateOrPreempt, Result.bind_eq_ok, Prod.exists] at h
    obtain ⟨newBlocks, kv, -, h⟩ := h
    cases newBlocks with
    | some b => cases h
    | none =>
      simp only [Result.bind_eq_ok, Prod.exists] at h
      obtain ⟨v, j₁, st₁, -, st₂, hpre, h⟩ := h
      split at h
      · rename_i hv
        cases h
        obtain ⟨s, -, rfl⟩ := preempt_eq_ok hpre
        exact List.mem_append_right _ (List.mem_singleton.mpr hv.symm)
      · exact ih h

theorem visitRunning_round (h : st.visitRunning c env j r = .ok (true, j', st')) :
    (j' = j + 1 ∧ roundPreemptions c env st j r = [] ∧ ∃ e, st' = st.withEncoder e) ∨
      ∃ n plan j₁ st₁ kv blocks, j' = j₁ + 1 ∧
        Victims c r n j (st.withEncoder plan.encoder) (roundPreemptions c env st j r) j₁ st₁ ∧
        (st₁.withKv kv).scheduleRunningRequest r n blocks plan = .ok st' := by
  unfold visitRunning at h
  unfold roundPreemptions
  dsimp only at h ⊢
  split at h
  · rename_i hmax
    cases h
    exact .inl ⟨rfl, if_pos hmax, st.sched.encoderCacheManager, rfl⟩
  · rename_i hmax
    rw [if_neg hmax]
    simp only [Result.bind_eq_ok] at h
    obtain ⟨plan, hplan, n, hn, h⟩ := h
    rw [hplan, Result.collect_ok, hn, Result.collect_ok]
    split at h
    · rename_i hzero
      cases h
      exact .inl ⟨rfl, if_pos hzero, plan.encoder, rfl⟩
    · rename_i hzero
      rw [if_neg hzero]
      simp only [Result.bind_eq_ok, Prod.exists] at h
      obtain ⟨newBlocks, j₁, st₁, halloc, h⟩ := h
      cases newBlocks with
      | none => cases h
      | some blocks =>
        simp only [Result.bind_eq_ok, Result.pure_eq_ok, Prod.mk.injEq] at h
        obtain ⟨st₂, hrun, -, rfl, rfl⟩ := h
        obtain ⟨st₃, kv, hvictims, rfl⟩ := allocateOrPreempt_victims halloc
        exact .inr ⟨n, plan, j₁, st₃, kv, blocks, rfl, hvictims, hrun⟩

theorem visitRunning_stops (h : st.visitRunning c env j r = .ok (false, j', st')) : r ∈ st'.preemptedReqs := by
  unfold visitRunning at h
  dsimp only at h
  split at h
  · cases h
  · simp only [Result.bind_eq_ok] at h
    obtain ⟨plan, -, n, -, h⟩ := h
    split at h
    · cases h
    · simp only [Result.bind_eq_ok, Prod.exists] at h
      obtain ⟨newBlocks, j₁, st₁, halloc, h⟩ := h
      cases newBlocks with
      | none =>
        cases h
        exact allocateOrPreempt_none halloc
      | some blocks =>
        simp only [Result.bind_eq_ok, Result.pure_eq_ok, Prod.mk.injEq] at h
        obtain ⟨st₂, -, h, -⟩ := h
        cases h

theorem takeVictim_priority (hpolicy : c.policy = .priority) (h : st.takeVictim c i = .ok (v, j, st')) :
    v ∈ st.sched.running ∧
      ((v ∉ st.scheduledRunningReqs ∧ j = i ∧
        st' = { st with sched := { st.sched with running := st.sched.running.erase v } }) ∨
      (v ∈ st.scheduledRunningReqs ∧ j = i - 1 ∧
        ({ st with sched := { st.sched with running := st.sched.running.erase v } } : Step).unschedule
          v = .ok st')) := by
  unfold takeVictim at h
  rw [hpolicy] at h
  dsimp only at h
  split at h
  · cases h
  · rename_i w hw
    split at h
    · rename_i hs
      simp only [Result.bind_eq_ok, Result.pure_eq_ok, Prod.mk.injEq] at h
      obtain ⟨st₁, hst, rfl, rfl, rfl⟩ := h
      exact ⟨mem_of_lowestPriority hw, .inr ⟨hs, rfl, hst⟩⟩
    · rename_i hs
      cases h
      exact ⟨mem_of_lowestPriority hw, .inl ⟨hs, rfl, rfl⟩⟩

end Step

end Vllm
