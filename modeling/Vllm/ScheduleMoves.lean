import Mathlib.Logic.Relation
import Vllm.Schedule

/-! What a call of `schedule()` can do, as a chain of moves. Every invariant of the scheduler is
proved of the moves. -/

namespace Vllm

namespace Step

open Scheduler

def selected (s : Scheduler) (skipped : Bool) : Option Ref :=
  RequestQueue.peekRequest (if skipped then s.skippedWaiting else s.waiting)

/-- One change that `schedule()` makes before it builds its output. The states `st₀` are earlier
ones, in which the request was the same. -/
inductive Move (c : SchedulerConfig) (env : Outside) : Step → Step → Prop
  | encoder {st : Step} {r : Ref} {numComputedTokens numNewTokens budget : Int}
      {plan : EncoderPlan} :
      tryScheduleEncoderInputs c env st.sched (st.sched.objs r) numComputedTokens numNewTokens
        budget = .ok plan →
      Move c env st (st.withEncoder plan.encoder)
  | noSlots {st : Step} {r : Ref} {n : Int} {kv : KVCacheManager} : r ∈ st.sched.running →
      st.sched.kvCacheManager.allocateSlots c.kv (st.sched.objs r) n
        { numLookaheadTokens := c.numLookaheadTokens } = .ok (none, kv) →
      Move c env st (st.withKv kv)
  | preempt {st st₁ st₂ : Step} {i j : Nat} {victim : Ref} :
      st.scheduledNewReqs ++ st.scheduledResumedReqs = [] →
      (victim ∈ st.scheduledRunningReqs → c.policy = .priority) →
      st.takeVictim c i = .ok (victim, j, st₁) → st₁.preempt c victim = .ok st₂ →
      Move c env st st₂
  | run {st st₀ st' : Step} {r : Ref} {n : Int} {blocks : List (List BlockId)}
      {kv : KVCacheManager} {plan : EncoderPlan} :
      st.scheduledNewReqs ++ st.scheduledResumedReqs = [] →
      r ∈ st.sched.running → r ∉ st.scheduledRunningReqs →
      tryScheduleEncoderInputs c env st₀.sched (st.sched.objs r)
        (st.sched.objs r).numComputedTokens (runningNewTokens c st₀ (st.sched.objs r))
        st₀.encoderComputeBudget = .ok plan →
      alignedNewTokens c (st.sched.objs r) plan.numNewTokens 0 0 = .ok n → n ≠ 0 →
      st.sched.kvCacheManager.allocateSlots c.kv (st.sched.objs r) n
        { numLookaheadTokens := c.numLookaheadTokens } = .ok (some blocks, kv) →
      (st.withKv kv).scheduleRunningRequest r n blocks plan = .ok st' →
      Move c env st st'
  | loras {st st' : Step} : st.recordLoras c = .ok st' → Move c env st st'
  | promote {st : Step} {r : Ref} {skipped : Bool} {s : Scheduler} :
      selected st.sched skipped = some r →
      isBlockedWaitingStatus (st.sched.objs r).status = true →
      tryPromote c env st.sched r = .ok (true, s) → Move c env st { st with sched := s }
  | skip {st st' : Step} {skipped : Bool} : st.skipSelected c skipped = .ok st' → Move c env st st'
  | computed {st : Step} {r : Ref} {pre : Option ComputedPrefix} {s : Scheduler} :
      computedPrefix c env st.sched r = .ok (pre, s) → Move c env st { st with sched := s }
  | noRoom {st : Step} {r : Ref} {skipped : Bool} {n : Int} {pre : ComputedPrefix}
      {plan : EncoderPlan} {kv : KVCacheManager} : selected st.sched skipped = some r →
      st.sched.kvCacheManager.allocateSlots c.kv (st.sched.objs r) n
        (waitingArgs c (st.sched.objs r) pre plan) = .ok (none, kv) →
      Move c env st (if (st.sched.objs r).hasEncoderInputs then
        (st.withKv kv).withEncoder (st.sched.encoderCacheManager.free (st.sched.objs r))
        else st.withKv kv)
  | load {st st' : Step} {r : Ref} {skipped : Bool} {n : Int} {pre : ComputedPrefix}
      {plan : EncoderPlan} {blocks : List (List BlockId)} {kv : KVCacheManager} :
      selected st.sched skipped = some r → c.hasConnector = true →
      st.sched.kvCacheManager.allocateSlots c.kv (st.sched.objs r) n
        (waitingArgs c (st.sched.objs r) pre plan) = .ok (some blocks, kv) →
      (st.withKv kv).startLoad c skipped pre = .ok st' → Move c env st st'
  | admitRequest {st st' st₀ : Step} {r : Ref} {skipped : Bool} {n : Int} {pre : ComputedPrefix}
      {plan : EncoderPlan} {blocks : List (List BlockId)} {kv : KVCacheManager} :
      selected st.sched skipped = some r →
      (c.hasConnector = false → computedPrefix c env st.sched r = .ok (some pre, st.sched)) →
      planWaiting c env st₀ (st.sched.objs r) pre = .ok (some plan) → pre.loadKvAsync = false →
      alignedNewTokens c (st.sched.objs r) plan.numNewTokens pre.numNewLocalComputedTokens
        pre.numExternalComputedTokens = .ok n →
      st.sched.kvCacheManager.allocateSlots c.kv (st.sched.objs r) n
        (waitingArgs c (st.sched.objs r) pre plan) = .ok (some blocks, kv) →
      (st.withKv kv).admitRequest c skipped n pre plan = .ok st' → Move c env st st'
  | requeue {st : Step} : Move c env st (st.requeueSkipped c)

abbrev Moves (c : SchedulerConfig) (env : Outside) : Step → Step → Prop :=
  Relation.ReflTransGen (Move c env)

variable {c : SchedulerConfig} {env : Outside} {st st' : Step}

/-! The running loop never visits a request again that it has scheduled. -/

theorem mem_take_erase {l : List Ref} {n : Nat} {x v : Ref} (hx : x ∈ l.take n) (hne : x ≠ v) :
    x ∈ (l.erase v).take n := by
  induction l generalizing n with
  | nil => simp at hx
  | cons y l ih =>
    cases n with
    | zero => simp at hx
    | succ n =>
      rw [List.take_succ_cons, List.mem_cons] at hx
      by_cases hy : y = v
      · subst hy
        rw [List.erase_cons_head]
        exact List.take_subset_take_left l n.le_succ (hx.resolve_left hne)
      · rw [List.erase_cons_tail (by simpa using hy), List.take_succ_cons, List.mem_cons]
        exact hx.imp id ih

theorem mem_take_erase_pred {l : List Ref} {n : Nat} {x v : Ref} (hv : v ∈ l.take n)
    (hx : x ∈ l.take n) (hne : x ≠ v) : x ∈ (l.erase v).take (n - 1) := by
  induction l generalizing n with
  | nil => simp at hx
  | cons y l ih =>
    cases n with
    | zero => simp at hx
    | succ n =>
      rw [List.take_succ_cons, List.mem_cons] at hx hv
      by_cases hy : y = v
      · subst hy
        rw [List.erase_cons_head]
        exact hx.resolve_left hne
      · have hv := hv.resolve_left (Ne.symm hy)
        cases n with
        | zero => simp at hv
        | succ n =>
          rw [List.erase_cons_tail (by simpa using hy), Nat.succ_sub_one, List.take_succ_cons,
            List.mem_cons]
          exact hx.imp id fun hx => ih hv hx

theorem dropLast_eq_erase {l : List Ref} {v : Ref} (hl : l.Nodup) (hv : l.getLast? = some v) :
    l.dropLast = l.erase v := by
  have hne : l ≠ [] := by
    intro h
    rw [h] at hv
    cases hv
  have hlast : l.getLast hne = v := by
    rw [List.getLast?_eq_some_getLast hne] at hv
    exact Option.some.inj hv
  have hsplit := List.dropLast_append_getLast hne
  rw [hlast] at hsplit
  have hmem : v ∉ l.dropLast := by
    intro h
    rw [← hsplit, List.nodup_append] at hl
    exact hl.2.2 v h v List.mem_cons_self rfl
  conv_rhs => rw [← hsplit]
  rw [List.erase_append_right _ hmem, List.erase_cons_head, List.append_nil]

theorem mem_of_lowestPriority {s : Scheduler} {l : List Ref} {v : Ref}
    (h : lowestPriority s l = some v) : v ∈ l := by
  cases l with
  | nil => cases h
  | cons r rs =>
    cases h
    have hfold : ∀ (rs : List Ref) (best : Ref), rs.foldl (fun best r =>
        if (s.objs best).priority < (s.objs r).priority ∨
            ((s.objs best).priority = (s.objs r).priority ∧
              (s.objs best).arrivalTime < (s.objs r).arrivalTime) then r
        else best) best ∈ best :: rs := by
      intro rs
      induction rs with
      | nil => exact fun best => List.mem_cons_self
      | cons y rs ih =>
        intro best
        rw [List.foldl_cons]
        split
        · exact List.mem_cons_of_mem best (ih y)
        · exact (List.Sublist.cons_cons best (List.sublist_cons_self y rs)).subset (ih best)
    exact hfold rs r

theorem takeVictim_cases {i j : Nat} {v : Ref} (hn : st.sched.running.Nodup)
    (h : st.takeVictim c i = .ok (v, j, st')) :
    v ∈ st.sched.running ∧
      ((¬ (c.policy = .priority ∧ v ∈ st.scheduledRunningReqs) ∧ j = i ∧
        (c.policy = .fcfs → st.sched.running.getLast? = some v) ∧
        st' = { st with sched := { st.sched with running := st.sched.running.erase v } }) ∨
      (c.policy = .priority ∧ v ∈ st.scheduledRunningReqs ∧ j = i - 1 ∧
        ({ st with sched := { st.sched with running := st.sched.running.erase v } } : Step).unschedule
          v = .ok st')) := by
  unfold takeVictim at h
  split at h
  · rename_i hp
    split at h
    · cases h
    · rename_i w hw
      dsimp only at h
      split at h
      · rename_i hs
        simp only [Result.bind_eq_ok, Result.pure_eq_ok, Prod.mk.injEq] at h
        obtain ⟨st₁, hst, rfl, rfl, rfl⟩ := h
        exact ⟨mem_of_lowestPriority hw, .inr ⟨hp, hs, rfl, hst⟩⟩
      · rename_i hs
        cases h
        exact ⟨mem_of_lowestPriority hw,
          .inl ⟨fun h => hs h.2, rfl, fun h => by simp [h] at hp, rfl⟩⟩
  · rename_i hp
    split at h
    · cases h
    · rename_i w hw
      cases h
      refine ⟨List.mem_of_getLast? hw, .inl ⟨fun h => by simp [hp] at h, rfl, fun _ => hw, ?_⟩⟩
      rw [dropLast_eq_erase hn hw]

theorem unschedule_eq_ok {v : Ref} (h : st.unschedule v = .ok st') :
    ∃ n, st.numScheduledTokens.get? (st.sched.objs v).requestId = some n ∧
      st' = { st with
        scheduledRunningReqs := st.scheduledRunningReqs.erase v
        tokenBudget := st.tokenBudget + n
        numScheduledTokens := st.numScheduledTokens.erase (st.sched.objs v).requestId
        reqToNewBlocks := st.reqToNewBlocks.erase (st.sched.objs v).requestId
        scheduledSpecDecodeTokens :=
          st.scheduledSpecDecodeTokens.erase (st.sched.objs v).requestId
        scheduledEncoderInputs := st.scheduledEncoderInputs.erase (st.sched.objs v).requestId
        encoderComputeBudget := st.encoderComputeBudget +
          ((st.scheduledEncoderInputs.getD (st.sched.objs v).requestId []).map fun i =>
            ((st.sched.objs v).getNumEncoderEmbeds i : Int)).sum
        unscheduled :=
          (v, st.scheduledEncoderInputs.getD (st.sched.objs v).requestId []) :: st.unscheduled } := by
  unfold unschedule at h
  dsimp only at h
  split at h
  · cases h
  · rename_i n hn
    split at h
    · cases h
    · cases h
      exact ⟨n, hn, rfl⟩

structure TakesVictim (v : Ref) (st st' : Step) : Prop where
  mem : v ∈ st.sched.running
  sched : ∃ running, st'.sched = { st.sched with running } ∧ running.Sublist st.sched.running ∧
    ∀ r ∈ st.sched.running, r ≠ v → r ∈ running
  scheduled : ∀ r ∈ st'.scheduledRunningReqs, r ∈ st.scheduledRunningReqs
  aside : st'.stepSkippedWaiting = st.stepSkippedWaiting
  preempted : st'.preemptedReqs = st.preemptedReqs

theorem takeVictim_takes {i j : Nat} {v : Ref} (h : st.takeVictim c i = .ok (v, j, st')) : TakesVictim v st st' := by
  have herase : (st.sched.running.erase v).Sublist st.sched.running ∧
      ∀ r ∈ st.sched.running, r ≠ v → r ∈ st.sched.running.erase v :=
    ⟨List.erase_sublist, fun r hr hne => (List.mem_erase_of_ne hne).mpr hr⟩
  unfold takeVictim at h
  split at h
  · split at h
    · cases h
    · rename_i w hw
      dsimp only at h
      split at h
      · simp only [Result.bind_eq_ok, Result.pure_eq_ok, Prod.mk.injEq] at h
        obtain ⟨st₁, hun, rfl, -, rfl⟩ := h
        obtain ⟨n, -, rfl⟩ := unschedule_eq_ok hun
        exact ⟨mem_of_lowestPriority hw, ⟨_, rfl, herase⟩, fun r => List.mem_of_mem_erase, rfl, rfl⟩
      · cases h
        exact ⟨mem_of_lowestPriority hw, ⟨_, rfl, herase⟩, fun r => id, rfl, rfl⟩
  · split at h
    · cases h
    · rename_i w hw
      cases h
      refine ⟨List.mem_of_getLast? hw, ⟨_, rfl, List.dropLast_sublist _, fun r hr hne => ?_⟩, fun r => id, rfl, rfl⟩
      have hnil : st.sched.running ≠ [] := List.ne_nil_of_mem hr
      rw [List.getLast?_eq_some_getLast hnil, Option.some_inj] at hw
      rw [← List.dropLast_append_getLast hnil, List.mem_append, List.mem_singleton, hw] at hr
      exact hr.resolve_right hne

theorem preemptRequest_eq_ok {s s' : Scheduler} {v : Ref} (h : preemptRequest c s v = .ok s') :
    (s.objs v).status = .running ∧
      s' = { s with
        kvCacheManager := s.kvCacheManager.free (s.objs v).requestId
        encoderCacheManager := s.encoderCacheManager.free (s.objs v)
        objs := Function.update s.objs v (markPreempted (s.objs v))
        waiting := RequestQueue.prependRequest c.policy (s.modify v markPreempted).lt s.waiting v } := by
  simp only [preemptRequest, Result.bind_eq_ok, Result.ensure_eq_ok, Result.pure_eq_ok] at h
  obtain ⟨-, hst, rfl⟩ := h
  exact ⟨hst, rfl⟩

theorem preempt_eq_ok {v : Ref} (h : st.preempt c v = .ok st') :
    ∃ s, preemptRequest c st.sched v = .ok s ∧
      st' = { st with sched := s, preemptedReqs := st.preemptedReqs ++ [v] } := by
  simp only [preempt, Result.bind_eq_ok, Result.pure_eq_ok] at h
  obtain ⟨s, hs, rfl⟩ := h
  exact ⟨s, hs, rfl⟩

structure Visiting (c : SchedulerConfig) (r : Ref) (j : Nat) (st : Step) : Prop where
  admitted : st.scheduledNewReqs ++ st.scheduledResumedReqs = []
  nodup : st.sched.running.Nodup
  scheduledNodup : st.scheduledRunningReqs.Nodup
  scheduled : ∀ x ∈ st.scheduledRunningReqs, x ∈ st.sched.running.take j
  fresh : r ∉ st.scheduledRunningReqs
  here : r ∈ st.sched.running.take (j + 1)
  inPlace : c.policy = .fcfs → st.sched.running[j]? = some r

theorem Visiting.congr {r : Ref} {j : Nat} (h : Visiting c r j st)
    (hadmitted : st'.scheduledNewReqs ++ st'.scheduledResumedReqs =
      st.scheduledNewReqs ++ st.scheduledResumedReqs)
    (hrunning : st'.sched.running = st.sched.running)
    (hscheduled : st'.scheduledRunningReqs = st.scheduledRunningReqs) : Visiting c r j st' where
  admitted := hadmitted.trans h.admitted
  nodup := hrunning ▸ h.nodup
  scheduledNodup := hscheduled ▸ h.scheduledNodup
  scheduled := hrunning ▸ hscheduled ▸ h.scheduled
  fresh := hscheduled ▸ h.fresh
  here := hrunning ▸ h.here
  inPlace := hrunning ▸ h.inPlace

theorem Visiting.victim_unscheduled {r v : Ref} {j : Nat} (h : Visiting c r j st)
    (hp : c.policy = .fcfs) (hv : st.sched.running.getLast? = some v) :
    v ∉ st.scheduledRunningReqs := by
  intro hmem
  obtain ⟨k, hk, hvk⟩ := List.mem_take_iff_getElem.mp (h.scheduled v hmem)
  obtain ⟨hj, -⟩ := List.getElem?_eq_some_iff.mp (h.inPlace hp)
  rw [List.getLast?_eq_getElem?, List.getElem?_eq_some_iff] at hv
  obtain ⟨hlast, hvlast⟩ := hv
  have heq : k = st.sched.running.length - 1 :=
    (List.Nodup.getElem_inj_iff h.nodup).mp (hvk.trans hvlast.symm)
  omega

theorem Visiting.takeVictim {r v : Ref} {j j' : Nat} (h : Visiting c r j st)
    (hv : st.takeVictim c j = .ok (v, j', st')) (hne : v ≠ r) :
    Visiting c r j' st' ∧ st'.sched.objs = st.sched.objs := by
  obtain ⟨hrun, hcase⟩ := takeVictim_cases h.nodup hv
  rcases hcase with ⟨hns, rfl, hlast, rfl⟩ | ⟨hp, hs, rfl, hun⟩
  · have hv' : v ∉ st.scheduledRunningReqs := by
      intro hs
      cases hpol : c.policy with
      | fcfs => exact h.victim_unscheduled hpol (hlast hpol) hs
      | priority => exact hns ⟨hpol, hs⟩
    refine ⟨⟨h.admitted, h.nodup.erase v, h.scheduledNodup, fun x hx => ?_, h.fresh, ?_, fun hp => ?_⟩, rfl⟩
    · exact mem_take_erase (h.scheduled x hx) fun hxv => hv' (hxv ▸ hx)
    · exact mem_take_erase h.here hne.symm
    · have hj := h.inPlace hp
      obtain ⟨hj', hjr⟩ := List.getElem?_eq_some_iff.mp hj
      have hl := hlast hp
      rw [List.getLast?_eq_getElem?, List.getElem?_eq_some_iff] at hl
      obtain ⟨hlen, hlv⟩ := hl
      have hjne : j' ≠ st.sched.running.length - 1 := by
        intro heq
        apply hne
        rw [← hlv, ← hjr]
        congr 1
        exact heq.symm
      show (st.sched.running.erase v)[j']? = some r
      rw [← dropLast_eq_erase h.nodup (hlast hp), List.getElem?_dropLast, if_pos (by omega)]
      exact hj
  · obtain ⟨n, -, rfl⟩ := unschedule_eq_ok hun
    have hvtake := h.scheduled v hs
    refine ⟨⟨h.admitted, h.nodup.erase v, h.scheduledNodup.erase v, fun x hx => ?_, fun hr => ?_,
      ?_, fun hp' => ?_⟩, rfl⟩
    · have hmem := List.mem_of_mem_erase hx
      have hxv : x ≠ v := by
        intro hxv
        subst hxv
        exact h.scheduledNodup.not_mem_erase hx
      exact mem_take_erase_pred hvtake (h.scheduled x hmem) hxv
    · exact h.fresh (List.mem_of_mem_erase hr)
    · have hj : j - 1 + 1 = j + 1 - 1 := by
        have hpos : 0 < j := by
          cases j with
          | zero => simp at hvtake
          | succ j => exact j.succ_pos
        omega
      show r ∈ (st.sched.running.erase v).take (j - 1 + 1)
      rw [hj]
      exact mem_take_erase_pred (List.take_subset_take_left _ j.le_succ hvtake) h.here hne.symm
    · rw [hp] at hp'
      cases hp'

theorem Visiting.preempt {r v : Ref} {j : Nat} (h : Visiting c r j st)
    (hv : st.preempt c v = .ok st') (hne : v ≠ r) :
    Visiting c r j st' ∧ st'.sched.objs r = st.sched.objs r := by
  obtain ⟨s, hs, rfl⟩ := preempt_eq_ok hv
  obtain ⟨-, rfl⟩ := preemptRequest_eq_ok hs
  exact ⟨h.congr rfl rfl rfl, Function.update_of_ne hne.symm _ _⟩

theorem Visiting.priority_of_scheduled {r v : Ref} {j j' : Nat} (h : Visiting c r j st)
    (hv : st.takeVictim c j = .ok (v, j', st')) (hs : v ∈ st.scheduledRunningReqs) :
    c.policy = .priority := by
  cases hp : c.policy with
  | priority => rfl
  | fcfs =>
    obtain ⟨-, hcase⟩ := takeVictim_cases h.nodup hv
    rcases hcase with ⟨-, -, hlast, -⟩ | ⟨hp', -⟩
    · exact absurd hs (h.victim_unscheduled hp (hlast hp))
    · rw [hp] at hp'
      cases hp'

variable (env) in
theorem allocateOrPreempt_moves {r : Ref} {n : Int} {fuel j j' : Nat}
    {blocks : Option (List (List BlockId))} (hvis : Visiting c r j st)
    (h : allocateOrPreempt c r n fuel j st = .ok (blocks, j', st')) :
    match blocks with
    | none => Moves c env st st'
    | some blocks => ∃ st₁ kv, Moves c env st st₁ ∧ Visiting c r j' st₁ ∧
        st₁.sched.objs r = st.sched.objs r ∧
        st₁.sched.kvCacheManager.allocateSlots c.kv (st₁.sched.objs r) n
          { numLookaheadTokens := c.numLookaheadTokens } = .ok (some blocks, kv) ∧
        st' = st₁.withKv kv := by
  induction fuel generalizing j st with
  | zero => cases h
  | succ fuel ih =>
    simp only [allocateOrPreempt, Result.bind_eq_ok, Prod.exists] at h
    obtain ⟨newBlocks, kv, halloc, h⟩ := h
    cases newBlocks with
    | some b =>
      cases h
      exact ⟨st, kv, .refl, hvis, rfl, halloc, rfl⟩
    | none =>
      simp only [Result.bind_eq_ok, Prod.exists] at h
      obtain ⟨v, j₁, st₁, hvictim, st₂, hpre, h⟩ := h
      have hvis₀ : Visiting c r j (st.withKv kv) := hvis.congr rfl rfl rfl
      have hnoSlots : Move c env st (st.withKv kv) :=
        .noSlots (List.mem_of_mem_take hvis.here) halloc
      have hpreempt : Move c env (st.withKv kv) st₂ :=
        .preempt hvis₀.admitted (hvis₀.priority_of_scheduled hvictim) hvictim hpre
      have hmoves : Moves c env st st₂ := (Relation.ReflTransGen.single hnoSlots).tail hpreempt
      split at h
      · cases h
        exact hmoves
      · rename_i hne
        obtain ⟨hvis₁, hobjs₁⟩ := hvis₀.takeVictim hvictim hne
        obtain ⟨hvis₂, hobjs₂⟩ := hvis₁.preempt hpre hne
        have hrest := ih hvis₂ h
        cases blocks with
        | none => exact hmoves.trans hrest
        | some b =>
          obtain ⟨st₃, kv₃, hm, hvis₃, hobjs₃, hrest⟩ := hrest
          refine ⟨st₃, kv₃, hmoves.trans hm, hvis₃, ?_, hrest⟩
          rw [hobjs₃, hobjs₂, hobjs₁]
          rfl

structure Visited (j : Nat) (st : Step) : Prop where
  admitted : st.scheduledNewReqs ++ st.scheduledResumedReqs = []
  nodup : st.sched.running.Nodup
  scheduledNodup : st.scheduledRunningReqs.Nodup
  scheduled : ∀ x ∈ st.scheduledRunningReqs, x ∈ st.sched.running.take j

theorem Visited.succ {j : Nat} (h : Visited j st)
    (hadmitted : st'.scheduledNewReqs ++ st'.scheduledResumedReqs =
      st.scheduledNewReqs ++ st.scheduledResumedReqs)
    (hrunning : st'.sched.running = st.sched.running)
    (hscheduled : st'.scheduledRunningReqs = st.scheduledRunningReqs) : Visited (j + 1) st' where
  admitted := hadmitted.trans h.admitted
  nodup := hrunning ▸ h.nodup
  scheduledNodup := hscheduled ▸ h.scheduledNodup
  scheduled x hx := by
    rw [hscheduled] at hx
    rw [hrunning]
    exact List.take_subset_take_left _ j.le_succ (h.scheduled x hx)

theorem Visited.visiting {r : Ref} {j : Nat} (h : Visited j st)
    (hr : st.sched.running[j]? = some r) : Visiting c r j st where
  admitted := h.admitted
  nodup := h.nodup
  scheduledNodup := h.scheduledNodup
  scheduled := h.scheduled
  fresh hs := by
    obtain ⟨k, hk, hrk⟩ := List.mem_take_iff_getElem.mp (h.scheduled r hs)
    obtain ⟨hj, hrj⟩ := List.getElem?_eq_some_iff.mp hr
    have heq : k = j := (List.Nodup.getElem_inj_iff h.nodup).mp (hrk.trans hrj.symm)
    omega
  here := by
    obtain ⟨hj, hrj⟩ := List.getElem?_eq_some_iff.mp hr
    exact List.mem_take_iff_getElem.mpr ⟨j, by omega, hrj⟩
  inPlace _ := hr

theorem scheduleEncoder_eq_ok {request : Request} {plan : EncoderPlan}
    (h : st.scheduleEncoder request plan = .ok st') :
    ∃ e₁ e, allocateEncoder request plan.encoderInputsToSchedule st.sched.encoderCacheManager
        = .ok e₁ ∧
      allocateEncoder request plan.externalLoadEncoderInput e₁ = .ok e ∧
      st' = if plan.encoderInputsToSchedule = [] then st.withEncoder e
        else { st.withEncoder e with
          scheduledEncoderInputs :=
            st.scheduledEncoderInputs.set request.requestId plan.encoderInputsToSchedule
          encoderComputeBudget := plan.encoderComputeBudget } := by
  simp only [scheduleEncoder, Result.bind_eq_ok] at h
  obtain ⟨e₁, he₁, e, he, h⟩ := h
  refine ⟨e₁, e, he₁, he, ?_⟩
  split at h
  · rename_i hnil
    rw [if_pos hnil]
    exact (Except.ok.inj h).symm
  · rename_i hnil
    rw [if_neg hnil]
    exact (Except.ok.inj h).symm

theorem scheduleEncoder_frame {request : Request} {plan : EncoderPlan}
    (h : st.scheduleEncoder request plan = .ok st') :
    ∃ e inputs budget, st' = { st.withEncoder e with
      scheduledEncoderInputs := inputs, encoderComputeBudget := budget } := by
  obtain ⟨e₁, e, -, -, rfl⟩ := scheduleEncoder_eq_ok h
  split
  · exact ⟨e, st.scheduledEncoderInputs, st.encoderComputeBudget, rfl⟩
  · exact ⟨e, _, _, rfl⟩

theorem Visiting.scheduleRunningRequest {r : Ref} {j : Nat} {n : Int}
    {blocks : List (List BlockId)} {plan : EncoderPlan} (hvis : Visiting c r j st)
    (h : st.scheduleRunningRequest r n blocks plan = .ok st') : Visited (j + 1) st' := by
  obtain ⟨e, inputs, budget, rfl⟩ := scheduleEncoder_frame h
  refine ⟨hvis.admitted, hvis.nodup, ?_, fun x hx => ?_⟩
  · exact List.nodup_append.mpr ⟨hvis.scheduledNodup, List.nodup_singleton r,
      fun a ha b hb => fun hab => hvis.fresh (List.mem_singleton.mp hb ▸ hab ▸ ha)⟩
  · rcases List.mem_append.mp hx with hx | hx
    · exact List.take_subset_take_left _ j.le_succ (hvis.scheduled x hx)
    · rw [List.mem_singleton.mp hx]
      exact hvis.here

theorem visitRunning_moves {r : Ref} {j j' : Nat} {goOn : Bool} (hvis : Visited j st)
    (hr : st.sched.running[j]? = some r)
    (h : st.visitRunning c env j r = .ok (goOn, j', st')) :
    Moves c env st st' ∧ (goOn = true → Visited j' st') := by
  unfold visitRunning at h
  dsimp only at h
  split at h
  · cases h
    exact ⟨.refl, fun _ => hvis.succ rfl rfl rfl⟩
  · simp only [Result.bind_eq_ok] at h
    obtain ⟨plan, hplan, n, hn, h⟩ := h
    have hencoder : Move c env st (st.withEncoder plan.encoder) := .encoder hplan
    split at h
    · cases h
      exact ⟨.single hencoder, fun _ => hvis.succ rfl rfl rfl⟩
    · rename_i hn0
      simp only [Result.bind_eq_ok, Prod.exists] at h
      obtain ⟨newBlocks, j₁, st₁, halloc, h⟩ := h
      have hvis₀ : Visiting c r j (st.withEncoder plan.encoder) :=
        (hvis.visiting hr).congr rfl rfl rfl
      have hmoves := allocateOrPreempt_moves env hvis₀ halloc
      cases newBlocks with
      | none =>
        cases h
        refine ⟨hmoves.head hencoder, fun h => ?_⟩
        cases h
      | some blocks =>
        simp only [Result.bind_eq_ok, Result.pure_eq_ok, Prod.mk.injEq] at h
        obtain ⟨st₂, hrun, rfl, rfl, rfl⟩ := h
        obtain ⟨st₃, kv, hm, hvis₃, hobjs, hslots, rfl⟩ := hmoves
        have hobjs' : st₃.sched.objs r = st.sched.objs r := hobjs
        have hmove : Move c env st₃ st₂ := by
          refine @Move.run _ _ _ st _ _ _ _ _ _ hvis₃.admitted (List.mem_of_mem_take hvis₃.here) hvis₃.fresh ?_ ?_
            hn0 hslots hrun
          · rw [hobjs']
            exact hplan
          · rw [hobjs']
            exact hn
        have hvis₄ : Visiting c r j₁ (st₃.withKv kv) := hvis₃.congr rfl rfl rfl
        exact ⟨(hm.head hencoder).tail hmove, fun _ => hvis₄.scheduleRunningRequest hrun⟩

theorem scheduleRunning_moves {fuel j : Nat} (hvis : Visited j st)
    (h : st.scheduleRunning c env fuel j = .ok st') : Moves c env st st' := by
  induction fuel generalizing j st with
  | zero =>
    cases h
    exact .refl
  | succ fuel ih =>
    unfold scheduleRunning at h
    split at h
    · split at h
      · cases h
        exact .refl
      · rename_i r hr
        simp only [Result.bind_eq_ok, Prod.exists] at h
        obtain ⟨goOn, j₁, st₁, hvisit, h⟩ := h
        obtain ⟨hmoves, hvis₁⟩ := visitRunning_moves hvis hr hvisit
        split at h
        · rename_i hgo
          exact hmoves.trans (ih (hvis₁ hgo) h)
        · cases h
          exact hmoves
    · cases h
      exact .refl

theorem computedPrefix_frame {s s' : Scheduler} {r : Ref} {pre : Option ComputedPrefix}
    (h : computedPrefix c env s r = .ok (pre, s')) :
    s' = s ∨ (c.hasConnector = true ∧
      ∃ ext, s' = s.modify r fun q => { q with numExternalComputedTokens := ext }) := by
  unfold computedPrefix at h
  dsimp only at h
  split at h
  · simp only [Result.bind_eq_ok, Prod.exists] at h
    obtain ⟨blocks, n, -, h⟩ := h
    split at h
    · rename_i hconn
      split at h
      · cases h
        exact .inl rfl
      · rename_i ext _ _
        simp only [Result.bind_eq_ok, Result.pure_eq_ok, Prod.mk.injEq] at h
        obtain ⟨-, -, -, rfl⟩ := h
        exact .inr ⟨hconn, ext, rfl⟩
    · simp only [Result.bind_eq_ok, Result.pure_eq_ok, Prod.mk.injEq] at h
      obtain ⟨-, -, -, rfl⟩ := h
      exact .inl rfl
  · cases h
    exact .inl rfl

theorem computedPrefix_withEncoder {s : Scheduler} {r : Ref} {pre : Option ComputedPrefix}
    (hconn : c.hasConnector = false) (h : computedPrefix c env s r = .ok (pre, s))
    (e : EncoderCacheManager) :
    computedPrefix c env (s.withEncoder e) r = .ok (pre, s.withEncoder e) := by
  unfold computedPrefix at h ⊢
  simp only [hconn, Bool.false_eq_true, if_false] at h ⊢
  by_cases h0 : (s.objs r).numComputedTokens = 0
  · rw [if_pos h0] at h
    rw [if_pos (show ((s.withEncoder e).objs r).numComputedTokens = 0 from h0)]
    simp only [Result.bind_eq_ok, Prod.exists, Result.pure_eq_ok, Prod.mk.injEq] at h ⊢
    obtain ⟨blocks, n, hb, u, hu, rfl, -⟩ := h
    exact ⟨blocks, n, hb, u, hu, rfl, trivial⟩
  · rw [if_neg h0] at h
    rw [if_neg (show ((s.withEncoder e).objs r).numComputedTokens ≠ 0 from h0)]
    cases h
    rfl

theorem planWaiting_cases {request : Request} {pre : ComputedPrefix} {plan : EncoderPlan}
    (h : planWaiting c env st request pre = .ok (some plan)) :
    (pre.loadKvAsync = true ∧ plan.encoder = st.sched.encoderCacheManager) ∨
      (pre.loadKvAsync = false ∧ ∃ n, 0 < n ∧ n ≤ request.numTokens - pre.numComputedTokens ∧
        tryScheduleEncoderInputs c env st.sched request pre.numComputedTokens n
          st.encoderComputeBudget = .ok plan) := by
  unfold planWaiting at h
  dsimp only at h
  split at h
  · rename_i hload
    simp only [Result.bind_eq_ok, Result.pure_eq_ok, Option.some.injEq] at h
    obtain ⟨-, -, rfl⟩ := h
    exact .inl ⟨hload, rfl⟩
  · rename_i hload
    generalize hm : (if 0 < c.longPrefillTokenThreshold ∧ (c.longPrefillTokenThreshold : Int) <
      (request.numTokens : Int) - pre.numComputedTokens then (c.longPrefillTokenThreshold : Int)
      else (request.numTokens : Int) - pre.numComputedTokens) = m at h
    have hle : m ≤ (request.numTokens : Int) - pre.numComputedTokens := by
      rw [← hm]
      split <;> omega
    split at h
    · cases h
    · simp only [Result.bind_eq_ok, Result.pure_eq_ok, Option.some.injEq, Result.ensure_eq_ok] at h
      obtain ⟨-, hpos, p, hp, rfl⟩ := h
      exact .inr ⟨by simpa using hload, _, hpos, (min_le_left _ _).trans hle, hp⟩

theorem planWaiting_encoder {r : Ref} {pre : ComputedPrefix} {plan : EncoderPlan}
    (h : planWaiting c env st (st.sched.objs r) pre = .ok (some plan)) :
    Moves c env st (st.withEncoder plan.encoder) := by
  rcases planWaiting_cases h with ⟨-, hidle⟩ | ⟨-, n, -, -, hp⟩
  · rw [hidle]
    exact .refl
  · exact .single (.encoder hp)

theorem placeWaiting_moves {st₀ : Step} {r : Ref} {skipped goOn : Bool} {n : Int}
    {pre : ComputedPrefix} {plan : EncoderPlan} (hsel : selected st.sched skipped = some r)
    (hpre : c.hasConnector = false → computedPrefix c env st.sched r = .ok (some pre, st.sched))
    (hasync : pre.loadKvAsync = true → c.hasConnector = true)
    (hplan : planWaiting c env st₀ (st.sched.objs r) pre = .ok (some plan))
    (hn : alignedNewTokens c (st.sched.objs r) plan.numNewTokens pre.numNewLocalComputedTokens
      pre.numExternalComputedTokens = .ok n)
    (h : st.placeWaiting c skipped r n pre plan = .ok (goOn, st')) : Moves c env st st' := by
  simp only [placeWaiting, Result.bind_eq_ok, Prod.exists] at h
  obtain ⟨newBlocks, kv, hslots, h⟩ := h
  cases newBlocks with
  | none =>
    cases h
    exact .single (.noRoom hsel hslots)
  | some blocks =>
    dsimp only at h
    split at h
    · rename_i hload
      simp only [Result.bind_eq_ok, Result.pure_eq_ok, Prod.mk.injEq] at h
      obtain ⟨st₁, hst, -, rfl⟩ := h
      exact .single (.load hsel (hasync hload) hslots hst)
    · rename_i hload
      simp only [Result.bind_eq_ok, Result.pure_eq_ok, Prod.mk.injEq] at h
      obtain ⟨st₁, hst, -, rfl⟩ := h
      exact .single (.admitRequest hsel hpre hplan (by simpa using hload) hn hslots hst)

theorem computedPrefix_async {s s' : Scheduler} {r : Ref} {pre : ComputedPrefix}
    (h : computedPrefix c env s r = .ok (some pre, s')) (hload : pre.loadKvAsync = true) :
    c.hasConnector = true := by
  unfold computedPrefix at h
  dsimp only at h
  split at h
  · simp only [Result.bind_eq_ok, Prod.exists] at h
    obtain ⟨blocks, n, -, h⟩ := h
    split at h
    · rename_i hconn
      exact hconn
    · simp only [Result.bind_eq_ok, Result.pure_eq_ok, Prod.mk.injEq, Option.some.injEq] at h
      obtain ⟨-, -, rfl, -⟩ := h
      cases hload
  · cases h
    cases hload

theorem tryWaiting_moves {r : Ref} {skipped goOn : Bool} (hsel : selected st.sched skipped = some r)
    (h : st.tryWaiting c env skipped r = .ok (goOn, st')) : Moves c env st st' := by
  simp only [tryWaiting, Result.bind_eq_ok, Prod.exists] at h
  obtain ⟨pre, s, hpre, h⟩ := h
  have hcomputed : Move c env st { st with sched := s } := .computed hpre
  cases pre with
  | none =>
    simp only [Result.bind_eq_ok, Result.pure_eq_ok, Prod.mk.injEq] at h
    obtain ⟨st₁, hst, -, rfl⟩ := h
    exact (Relation.ReflTransGen.single hcomputed).tail (.skip hst)
  | some pre =>
    simp only [Result.bind_eq_ok] at h
    obtain ⟨plan, hplan, h⟩ := h
    cases plan with
    | none =>
      cases h
      exact .single hcomputed
    | some plan =>
      have hmoves : Moves c env st (withEncoder { st with sched := s } plan.encoder) :=
        (planWaiting_encoder hplan).head hcomputed
      dsimp only at h
      split at h
      · cases h
        exact hmoves
      · simp only [Result.bind_eq_ok] at h
        obtain ⟨n, hn, h⟩ := h
        split at h
        · cases h
          exact hmoves
        · refine hmoves.trans (placeWaiting_moves ?_ ?_ ?_ hplan hn h)
          · rcases computedPrefix_frame hpre with rfl | ⟨-, ext, rfl⟩
            · exact hsel
            · exact hsel
          · intro hconn
            rcases computedPrefix_frame hpre with rfl | ⟨hconn', -⟩
            · exact computedPrefix_withEncoder hconn hpre plan.encoder
            · rw [hconn] at hconn'
              cases hconn'
          · exact computedPrefix_async hpre

theorem updateWaitingForRemoteKv_frame {s s' : Scheduler} {r : Ref}
    (h : updateWaitingForRemoteKv c s r = .ok s') :
    ∃ computed cached kv failed finished,
      s' = { s with
        objs := Function.update s.objs r
          { s.objs r with numComputedTokens := computed, numCachedTokens := cached }
        kvCacheManager := kv
        failedRecvingKvReqIds := failed
        finishedRecvingKvReqIds := finished } := by
  simp only [updateWaitingForRemoteKv] at h
  split at h
  · simp only [Result.bind_eq_ok, Result.pure_eq_ok] at h
    obtain ⟨kv, -, rfl⟩ := h
    refine ⟨(s.objs r).numComputedTokens, (s.objs r).numCachedTokens, kv,
      s.failedRecvingKvReqIds.filter (· ≠ (s.objs r).requestId),
      s.finishedRecvingKvReqIds.filter (· ≠ (s.objs r).requestId), ?_⟩
    rw [show Function.update s.objs r _ = s.objs from Function.update_eq_self r s.objs]
    rfl
  · simp only [Result.bind_eq_ok, Result.pure_eq_ok] at h
    obtain ⟨kv, -, rfl⟩ := h
    exact ⟨_, _, kv, s.failedRecvingKvReqIds, _, rfl⟩

theorem tryPromote_cases {s s' : Scheduler} {r : Ref} {ready : Bool}
    (h : tryPromote c env s r = .ok (ready, s')) :
    (ready = false ∧ s' = s) ∨
    (ready = true ∧ (s.objs r).status = .waitingForFsm ∧
      s' = s.modify r fun q => { q with status := .waiting }) ∨
    (ready = true ∧ (s.objs r).status = .waitingForRemoteKvs ∧ ∃ computed cached kv failed finished,
      s' = { s with
        objs := Function.update s.objs r
          { s.objs r with
            numComputedTokens := computed
            numCachedTokens := cached
            status := if (s.objs r).numPreemptions ≠ 0 then .preempted else .waiting }
        kvCacheManager := kv
        failedRecvingKvReqIds := failed
        finishedRecvingKvReqIds := finished }) := by
  unfold tryPromote at h
  dsimp only at h
  split at h
  · rename_i hst
    split at h
    · cases h
      exact .inl ⟨rfl, rfl⟩
    · simp only [Result.bind_eq_ok, Result.pure_eq_ok, Prod.mk.injEq] at h
      obtain ⟨s₁, hs₁, rfl, rfl⟩ := h
      obtain ⟨computed, cached, kv, failed, finished, rfl⟩ := updateWaitingForRemoteKv_frame hs₁
      refine .inr (.inr ⟨rfl, hst, computed, cached, kv, failed, finished, ?_⟩)
      simp only [Scheduler.modify, Function.update_self, Function.update_idem]
  · rename_i hst
    split at h
    · cases h
      exact .inr (.inl ⟨rfl, hst, rfl⟩)
    · cases h
      exact .inl ⟨rfl, rfl⟩
  · simp only [Result.bind_eq_ok, Result.pure_eq_ok, Prod.mk.injEq] at h
    obtain ⟨-, -, rfl, rfl⟩ := h
    exact .inl ⟨rfl, rfl⟩
  · cases h

theorem visitWaiting_moves {goOn : Bool} (h : st.visitWaiting c env = .ok (goOn, st')) :
    Moves c env st st' := by
  unfold visitWaiting at h
  dsimp only at h
  split at h
  · cases h
  · rename_i r hr
    have hsel : selected st.sched (selectsSkipped c st.sched) = some r := hr
    simp only [Result.bind_eq_ok, Prod.exists] at h
    obtain ⟨ready, s, hpromote, h⟩ := h
    have hready : Moves c env st { st with sched := s } ∧
        selected s (selectsSkipped c st.sched) = some r := by
      split at hpromote
      · rename_i hblocked
        cases ready with
        | false =>
          rcases tryPromote_cases hpromote with ⟨-, rfl⟩ | ⟨h, -⟩ | ⟨h, -⟩
          · exact ⟨.refl, hsel⟩
          · cases h
          · cases h
        | true =>
          refine ⟨.single (.promote hsel hblocked hpromote), ?_⟩
          rcases tryPromote_cases hpromote with ⟨h, -⟩ | ⟨-, -, rfl⟩ | ⟨-, -, _, _, _, _, _, rfl⟩
          · cases h
          · exact hsel
          · exact hsel
      · cases hpromote
        exact ⟨.refl, hsel⟩
    split at h
    · simp only [Result.bind_eq_ok, Result.pure_eq_ok, Prod.mk.injEq] at h
      obtain ⟨st₁, hst, -, rfl⟩ := h
      exact hready.1.tail (.skip hst)
    · exact hready.1.trans (tryWaiting_moves hready.2 h)

theorem scheduleWaiting_moves {fuel : Nat} (h : st.scheduleWaiting c env fuel = .ok st') :
    Moves c env st st' := by
  induction fuel generalizing st with
  | zero =>
    cases h
    exact .refl
  | succ fuel ih =>
    unfold scheduleWaiting at h
    split at h
    · simp only [Result.bind_eq_ok, Prod.exists] at h
      obtain ⟨goOn, st₁, hvisit, h⟩ := h
      split at h
      · exact (visitWaiting_moves hvisit).trans (ih h)
      · cases h
        exact visitWaiting_moves hvisit
    · cases h
      exact .refl

def start (c : SchedulerConfig) (s : Scheduler) : Step where
  sched := s.withKv s.kvCacheManager.newStepStarts
  tokenBudget := if s.pauseState = .pausedAll then 0 else c.maxNumScheduledTokens
  encoderComputeBudget := c.maxNumEncoderInputTokens

theorem scheduleRequests_moves {s : Scheduler} (hn : s.running.Nodup)
    (h : scheduleRequests c env s = .ok st) : Moves c env (start c s) st := by
  simp only [scheduleRequests, Result.bind_eq_ok] at h
  obtain ⟨st₁, hrunning, st₂, hloras, h⟩ := h
  have hvis : Visited 0 (start c s) :=
    ⟨rfl, hn, List.nodup_nil, fun x hx => absurd hx List.not_mem_nil⟩
  have hmoves : Moves c env (start c s) st₂ :=
    (scheduleRunning_moves hvis hrunning).tail (.loras hloras)
  split at h
  · simp only [Result.bind_eq_ok, Result.pure_eq_ok] at h
    obtain ⟨st₃, hwaiting, rfl⟩ := h
    exact (hmoves.trans (scheduleWaiting_moves hwaiting)).tail .requeue
  · cases h
    exact hmoves

end Step

end Vllm
