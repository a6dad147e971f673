import Vllm.QueueSchedule

namespace Vllm

def Request.Rescheduled (q q' : Request) : Prop :=
  ∃ status computed cached drafts preemptions external,
    q' = { q with
      status := status
      numComputedTokens := computed
      numCachedTokens := cached
      specTokenIds := drafts
      numPreemptions := preemptions
      numExternalComputedTokens := external }

theorem Request.Rescheduled.refl (q : Request) : q.Rescheduled q :=
  ⟨q.status, q.numComputedTokens, q.numCachedTokens, q.specTokenIds, q.numPreemptions,
    q.numExternalComputedTokens, rfl⟩

theorem Request.Rescheduled.trans {q q₁ q₂ : Request} (h : q.Rescheduled q₁)
    (h' : q₁.Rescheduled q₂) : q.Rescheduled q₂ := by
  obtain ⟨a, b, c, d, e, f, rfl⟩ := h
  obtain ⟨a', b', c', d', e', f', rfl⟩ := h'
  exact ⟨a', b', c', d', e', f', rfl⟩

namespace Step

open Scheduler

variable {c : SchedulerConfig} {env : Outside} {st st' : Step}

structure Reschedules (s s' : Scheduler) : Prop where
  requests : s'.requests = s.requests
  objs : ∀ r, (s.objs r).Rescheduled (s'.objs r)

theorem Reschedules.refl (s : Scheduler) : Reschedules s s := ⟨rfl, fun _ => .refl _⟩

theorem Reschedules.trans {s s₁ s₂ : Scheduler} (h : Reschedules s s₁) (h' : Reschedules s₁ s₂) :
    Reschedules s s₂ :=
  ⟨h'.requests.trans h.requests, fun r => (h.objs r).trans (h'.objs r)⟩

theorem reschedules_of_eq {s s' : Scheduler} (hrequests : s'.requests = s.requests)
    (hobjs : s'.objs = s.objs) : Reschedules s s' :=
  ⟨hrequests, fun r => by rw [hobjs]; exact .refl _⟩

theorem reschedules_update {s s' : Scheduler} {r : Ref} {q : Request}
    (hrequests : s'.requests = s.requests) (hobjs : s'.objs = Function.update s.objs r q)
    (hq : (s.objs r).Rescheduled q) : Reschedules s s' := by
  refine ⟨hrequests, fun x => ?_⟩
  rw [hobjs]
  by_cases hx : x = r
  · subst hx
    rw [Function.update_self]
    exact hq
  · rw [Function.update_of_ne hx]
    exact .refl _

theorem popSelected_reschedules {s s' : Scheduler} {skipped : Bool} {r : Ref}
    (h : popSelected c s skipped = .ok (r, s')) : Reschedules s s' := by
  obtain ⟨-, -, waiting, skippedWaiting, rfl⟩ := popSelected_eq_ok h
  exact reschedules_of_eq rfl rfl

theorem scheduleEncoder_reschedules {request : Request} {plan : EncoderPlan}
    (h : st.scheduleEncoder request plan = .ok st') : Reschedules st.sched st'.sched := by
  obtain ⟨e, inputs, budget, rfl⟩ := scheduleEncoder_frame h
  exact reschedules_of_eq rfl rfl

theorem preempt_reschedules {st₁ : Step} {v : Ref} {i j : Nat} (hn : st.sched.running.Nodup)
    (hv : st.takeVictim c i = .ok (v, j, st₁)) (hp : st₁.preempt c v = .ok st') :
    Reschedules st.sched st'.sched := by
  obtain ⟨-, hsched, -⟩ := takeVictim_frame hn hv
  obtain ⟨s, hs, rfl⟩ := preempt_eq_ok hp
  obtain ⟨-, rfl⟩ := preemptRequest_eq_ok hs
  rw [hsched]
  exact reschedules_update rfl rfl ⟨_, _, _, _, _, _, rfl⟩

theorem admit_reschedules {skipped : Bool} {n : Int} {pre : ComputedPrefix} {plan : EncoderPlan}
    (h : st.admitRequest c skipped n pre plan = .ok st') : Reschedules st.sched st'.sched := by
  obtain ⟨r, s, new, resumed, loras, hpop, -, h⟩ := admitRequest_eq_ok h
  refine (popSelected_reschedules hpop).trans (.trans ?_ (scheduleEncoder_reschedules h))
  exact reschedules_update rfl rfl ⟨_, _, _, _, _, _, rfl⟩

theorem startLoad_reschedules {skipped : Bool} {pre : ComputedPrefix}
    (h : st.startLoad c skipped pre = .ok st') : Reschedules st.sched st'.sched := by
  simp only [startLoad, Result.bind_eq_ok, Prod.exists, Result.pure_eq_ok] at h
  obtain ⟨r, s, hpop, rfl⟩ := h
  refine (popSelected_reschedules hpop).trans ?_
  have hfirst : Reschedules s (s.modify r fun q => { q with status := .waitingForRemoteKvs }) :=
    reschedules_update rfl rfl ⟨_, _, _, _, _, _, rfl⟩
  exact hfirst.trans (reschedules_update rfl rfl ⟨_, _, _, _, _, _, rfl⟩)

theorem Move.reschedules (hm : Move c env st st') (hn : st.sched.running.Nodup) :
    Reschedules st.sched st'.sched := by
  cases hm with
  | encoder => exact reschedules_of_eq rfl rfl
  | noSlots => exact reschedules_of_eq rfl rfl
  | preempt _ _ hv hp => exact preempt_reschedules hn hv hp
  | run _ _ _ _ _ _ _ h =>
    refine .trans ?_ (scheduleEncoder_reschedules h)
    exact reschedules_update rfl rfl ⟨_, _, _, _, _, _, rfl⟩
  | loras h =>
    obtain ⟨loras, rfl⟩ := recordLoras_frame h
    exact .refl _
  | promote _ _ h =>
    rcases tryPromote_cases h with ⟨h, -⟩ | ⟨-, -, rfl⟩ | ⟨-, -, a, b, kv, d, e, rfl⟩
    · cases h
    · exact reschedules_update rfl rfl ⟨_, _, _, _, _, _, rfl⟩
    · exact reschedules_update rfl rfl ⟨_, _, _, _, _, _, rfl⟩
  | skip h =>
    simp only [skipSelected, Result.bind_eq_ok, Prod.exists, Result.pure_eq_ok] at h
    obtain ⟨r, s, hpop, rfl⟩ := h
    exact popSelected_reschedules hpop
  | computed h =>
    rcases computedPrefix_frame h with rfl | ⟨-, ext, rfl⟩
    · exact .refl _
    · exact reschedules_update rfl rfl ⟨_, _, _, _, _, _, rfl⟩
  | noRoom =>
    split
    · exact reschedules_of_eq rfl rfl
    · exact reschedules_of_eq rfl rfl
  | load _ _ _ h =>
    have hload := startLoad_reschedules h
    exact ⟨hload.requests, hload.objs⟩
  | admitRequest _ _ _ _ _ _ h =>
    have hadm := admit_reschedules h
    exact ⟨hadm.requests, hadm.objs⟩
  | requeue => exact reschedules_of_eq rfl rfl

def KeepsFinished (s s' : Scheduler) : Prop :=
  ∀ r, (s.objs r).isFinished = true → (s'.objs r).isFinished = true

theorem keepsFinished_of_eq {s s' : Scheduler} (hobjs : s'.objs = s.objs) : KeepsFinished s s' := by
  intro r hr
  rw [hobjs]
  exact hr

theorem keepsFinished_update {s s' : Scheduler} {r : Ref} {q : Request}
    (hobjs : s'.objs = Function.update s.objs r q)
    (h : (s.objs r).isFinished = false ∨ q.status = (s.objs r).status) : KeepsFinished s s' := by
  intro x hx
  rw [hobjs]
  by_cases hxr : x = r
  · subst hxr
    rw [Function.update_self]
    rcases h with h | h
    · rw [h] at hx
      cases hx
    · rw [Request.isFinished, h]
      exact hx
  · rw [Function.update_of_ne hxr]
    exact hx

theorem KeepsFinished.trans {s s₁ s₂ : Scheduler} (h : KeepsFinished s s₁)
    (h' : KeepsFinished s₁ s₂) : KeepsFinished s s₂ :=
  fun r hr => h' r (h r hr)

theorem popSelected_keepsFinished {s s' : Scheduler} {skipped : Bool} {r : Ref}
    (h : popSelected c s skipped = .ok (r, s')) : KeepsFinished s s' := by
  obtain ⟨-, -, waiting, skippedWaiting, rfl⟩ := popSelected_eq_ok h
  exact keepsFinished_of_eq rfl

theorem not_finished_of_status {s : Scheduler} {r : Ref} {x : RequestStatus}
    (h : (s.objs r).status = x) (hx : x.isFinished = false) : (s.objs r).isFinished = false := by
  rw [Request.isFinished, h]
  exact hx

theorem admit_keepsFinished {skipped : Bool} {n : Int} {pre : ComputedPrefix} {plan : EncoderPlan}
    (h : st.admitRequest c skipped n pre plan = .ok st') : KeepsFinished st.sched st'.sched := by
  obtain ⟨r, s, new, resumed, loras, hpop, hstatus, h⟩ := admitRequest_eq_ok h
  obtain ⟨e, inputs, budget, rfl⟩ := scheduleEncoder_frame h
  refine (popSelected_keepsFinished hpop).trans (keepsFinished_update rfl (.inl ?_))
  rcases hstatus with ⟨hs, -⟩ | ⟨hs, -⟩
  · exact not_finished_of_status hs rfl
  · exact not_finished_of_status hs rfl

theorem Move.keepsFinished (hm : Move c env st st') (hk : st.sched.ledger.Kept st.queued)
    (hload : c.hasConnector = true → st.sched.ledger.Exact st.queued) :
    KeepsFinished st.sched st'.sched := by
  cases hm with
  | encoder => exact keepsFinished_of_eq rfl
  | noSlots => exact keepsFinished_of_eq rfl
  | preempt _ _ hv hp =>
    obtain ⟨-, hsched, -⟩ := takeVictim_frame (Multiset.coe_nodup.mp hk.nodup) hv
    obtain ⟨s, hs, rfl⟩ := preempt_eq_ok hp
    obtain ⟨hrun, rfl⟩ := preemptRequest_eq_ok hs
    rw [hsched] at hrun
    rw [hsched]
    exact keepsFinished_update rfl (.inl (not_finished_of_status hrun rfl))
  | run _ _ _ _ _ _ _ h =>
    obtain ⟨e, inputs, budget, rfl⟩ := scheduleEncoder_frame h
    exact keepsFinished_update rfl (.inr rfl)
  | loras h =>
    obtain ⟨loras, rfl⟩ := recordLoras_frame h
    exact keepsFinished_of_eq rfl
  | promote _ _ h =>
    rcases tryPromote_cases h with ⟨h, -⟩ | ⟨-, hst, rfl⟩ | ⟨-, hst, a, b, kv, d, e, rfl⟩
    · cases h
    · exact keepsFinished_update rfl (.inl (not_finished_of_status hst rfl))
    · exact keepsFinished_update rfl (.inl (not_finished_of_status hst rfl))
  | skip h =>
    simp only [skipSelected, Result.bind_eq_ok, Prod.exists, Result.pure_eq_ok] at h
    obtain ⟨r, s, hpop, rfl⟩ := h
    exact popSelected_keepsFinished hpop
  | computed h =>
    rcases computedPrefix_frame h with rfl | ⟨-, ext, rfl⟩
    · exact keepsFinished_of_eq rfl
    · exact keepsFinished_update rfl (.inr rfl)
  | noRoom =>
    split
    · exact keepsFinished_of_eq rfl
    · exact keepsFinished_of_eq rfl
  | load hsel hconn _ h =>
    simp only [startLoad, Result.bind_eq_ok, Prod.exists, Result.pure_eq_ok] at h
    obtain ⟨r, s, hpop, rfl⟩ := h
    obtain ⟨hsel', -, waiting, skippedWaiting, rfl⟩ := popSelected_eq_ok hpop
    have hlive := ((hload hconn).mem_iff r).mp (mem_queued_of_selected hsel')
    refine KeepsFinished.trans ?_ (keepsFinished_update rfl (.inr rfl))
    exact keepsFinished_update rfl (.inl hlive.1.2)
  | admitRequest _ _ _ _ _ _ h =>
    have hadm := admit_keepsFinished h
    exact fun r hr => hadm r hr
  | requeue => exact keepsFinished_of_eq rfl

theorem scheduleRequests_reschedules {s : Scheduler} (hk : s.ledger.Kept s.queued)
    (hload : c.hasConnector = true → s.ledger.Exact s.queued)
    (h : scheduleRequests c env s = .ok st) :
    Reschedules s st.sched ∧ KeepsFinished s st.sched := by
  have hstart : (start c s).queued = s.queued := Multiset.add_zero _
  have hmoves := scheduleRequests_moves (Multiset.coe_nodup.mp hk.nodup) h
  have hmove : ∀ st', Moves c env (start c s) st' →
      Reschedules s st'.sched ∧ KeepsFinished s st'.sched := by
    intro st' hm
    induction hm with
    | refl => exact ⟨reschedules_of_eq rfl rfl, keepsFinished_of_eq rfl⟩
    | tail hms hm ih =>
      have hkeeps := Moves.keepsBooks hms (by rw [hstart]; exact hk) (by rw [hstart]; exact hload)
      refine ⟨ih.1.trans (hm.reschedules (Multiset.coe_nodup.mp hkeeps.1.nodup)), ih.2.trans ?_⟩
      refine hm.keepsFinished hkeeps.1 fun hconn => hkeeps.2 ?_
      rw [hstart]
      exact hload hconn
  exact hmove st hmoves

end Step

end Vllm
