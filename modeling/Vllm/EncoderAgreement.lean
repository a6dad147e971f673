import Vllm.EncoderCacheLaws
import Vllm.QueueSchedule

namespace Vllm

open EncoderCacheManager

theorem Scheduler.modify_field {α : Type} (s : Scheduler) {r : Ref} {f : Request → Request}
    (g : Request → α) (hf : g (f (s.objs r)) = g (s.objs r)) (x : Ref) :
    g ((s.modify r f).objs x) = g (s.objs x) := by
  unfold modify
  dsimp only
  by_cases hx : x = r
  · subst hx
    rw [Function.update_self, hf]
  · rw [Function.update_of_ne hx]

namespace Step

open Scheduler

variable {c : SchedulerConfig} {env : Outside} {st st' : Step}

structure Steady (s s' : Scheduler) : Prop where
  requests : s'.requests = s.requests
  features : ∀ r, (s'.objs r).mmFeatures = (s.objs r).mmFeatures
  requestId : ∀ r, (s'.objs r).requestId = (s.objs r).requestId

theorem Steady.refl (s : Scheduler) : Steady s s := ⟨rfl, fun _ => rfl, fun _ => rfl⟩

theorem Steady.trans {s s₁ s₂ : Scheduler} (h : Steady s s₁) (h' : Steady s₁ s₂) : Steady s s₂ :=
  ⟨h'.requests.trans h.requests, fun r => (h'.features r).trans (h.features r),
    fun r => (h'.requestId r).trans (h.requestId r)⟩

theorem steady_update {s s' : Scheduler} {r : Ref} {q : Request}
    (hrequests : s'.requests = s.requests) (hobjs : s'.objs = Function.update s.objs r q)
    (hf : q.mmFeatures = (s.objs r).mmFeatures) (hid : q.requestId = (s.objs r).requestId) :
    Steady s s' := by
  refine ⟨hrequests, fun x => ?_, fun x => ?_⟩
  · rw [hobjs]
    exact s.modify_field (f := fun _ => q) Request.mmFeatures hf x
  · rw [hobjs]
    exact s.modify_field (f := fun _ => q) Request.requestId hid x

theorem steady_modify (s : Scheduler) {r : Ref} {f : Request → Request}
    (hf : (f (s.objs r)).mmFeatures = (s.objs r).mmFeatures)
    (hid : (f (s.objs r)).requestId = (s.objs r).requestId) : Steady s (s.modify r f) :=
  steady_update rfl rfl hf hid

def Sent (st : Step) (h : String) : Prop :=
  ∃ id inputs r i f, st.scheduledEncoderInputs.get? id = some inputs ∧ i ∈ inputs ∧
    st.sched.requests.get? id = some r ∧ (st.sched.objs r).mmFeatures[i]? = some f ∧
    f.identifier = h

theorem Sent.mono {h : String} (hs : Sent st h) (hsteady : Steady st.sched st'.sched)
    (hinputs : ∀ id inputs i, st.scheduledEncoderInputs.get? id = some inputs → i ∈ inputs →
      st'.scheduledEncoderInputs.get? id = some inputs) : Sent st' h := by
  obtain ⟨id, inputs, r, i, f, hget, hi, hr, hf, hh⟩ := hs
  refine ⟨id, inputs, r, i, f, hinputs id inputs i hget hi, hi, ?_, ?_, hh⟩
  · rw [hsteady.requests]
    exact hr
  · rw [hsteady.features]
    exact hf

def scheduled (st : Step) : List Ref :=
  st.scheduledRunningReqs ++ (st.scheduledNewReqs ++ st.scheduledResumedReqs)

/-- The scheduler's cache and the worker's cache `w`, which will have dropped what is freed and got
what is sent. -/
structure Agrees (w : List String) (st : Step) : Prop where
  decoderOnly : st.sched.encoderCacheManager.isEncoderDecoder = false
  cached : ∀ h, st.sched.encoderCacheManager.cached.contains h = true →
    (h ∈ w ∧ h ∉ st.sched.encoderCacheManager.freed) ∨ Sent st h
  owner : ∀ id inputs, st.scheduledEncoderInputs.get? id = some inputs →
    ∃ r ∈ st.sched.running, r ∈ st.scheduled ∧ (st.sched.objs r).requestId = id

theorem Agrees.mono {w : List String} (h : Agrees w st) (hsteady : Steady st.sched st'.sched)
    (hthin : Thinned st.sched.encoderCacheManager st'.sched.encoderCacheManager)
    (hinputs : ∀ id inputs i, st.scheduledEncoderInputs.get? id = some inputs → i ∈ inputs →
      st'.scheduledEncoderInputs.get? id = some inputs)
    (howner : ∀ id inputs, st'.scheduledEncoderInputs.get? id = some inputs →
      ∃ r ∈ st'.sched.running, r ∈ st'.scheduled ∧ (st.sched.objs r).requestId = id) :
    Agrees w st' where
  decoderOnly := hthin.same.trans h.decoderOnly
  cached x hx := by
    rcases h.cached x (hthin.cached x hx) with ⟨hw, hfreed⟩ | hsent
    · exact .inl ⟨hw, fun hf => hfreed (hthin.freed x hx hf)⟩
    · exact .inr (hsent.mono hsteady hinputs)
  owner id inputs hget := by
    obtain ⟨r, hr, hs, hid⟩ := howner id inputs hget
    exact ⟨r, hr, hs, (hsteady.requestId r).trans hid⟩

theorem Agrees.keep {w : List String} (h : Agrees w st) (hsteady : Steady st.sched st'.sched)
    (hthin : Thinned st.sched.encoderCacheManager st'.sched.encoderCacheManager)
    (hinputs : st'.scheduledEncoderInputs = st.scheduledEncoderInputs)
    (hrunning : st'.sched.running = st.sched.running) (hscheduled : st'.scheduled = st.scheduled) :
    Agrees w st' := by
  refine h.mono hsteady hthin (fun id inputs i hget _ => ?_) fun id inputs hget => ?_
  · rw [hinputs]
    exact hget
  · rw [hinputs] at hget
    rw [hrunning, hscheduled]
    exact h.owner id inputs hget

theorem Agrees.preempt {w : List String} {st₁ : Step} {v : Ref} {i j : Nat} (h : Agrees w st)
    (hn : st.sched.running.Nodup)
    (hadmitted : st.scheduledNewReqs ++ st.scheduledResumedReqs = [])
    (hv : st.takeVictim c i = .ok (v, j, st₁)) (hp : st₁.preempt c v = .ok st')
    (hpriority : v ∈ st.scheduledRunningReqs → c.policy = .priority)
    (hun : ∀ x ∈ st'.unscheduled, x.2 = []) : Agrees w st' := by
  obtain ⟨s, hs, rfl⟩ := preempt_eq_ok hp
  obtain ⟨-, rfl⟩ := preemptRequest_eq_ok hs
  obtain ⟨hrun, hcase⟩ := takeVictim_cases hn hv
  have hsched : st.scheduled = st.scheduledRunningReqs := by
    rw [scheduled, hadmitted, List.append_nil]
  rcases hcase with ⟨hnot, -, -, rfl⟩ | ⟨-, hmem, -, hunsched⟩
  · have hnotmem : v ∉ st.scheduledRunningReqs := fun hmem => hnot ⟨hpriority hmem, hmem⟩
    refine h.mono ?_ (free_released _ _).thinned (fun _ _ _ hget _ => hget) fun id inputs hget => ?_
    · exact steady_update rfl rfl rfl rfl
    · obtain ⟨r, hr, hrs, hid⟩ := h.owner id inputs hget
      have hne : r ≠ v := by
        rintro rfl
        exact hnotmem (hsched ▸ hrs)
      exact ⟨r, (List.mem_erase_of_ne hne).mpr hr, hrs, hid⟩
  · obtain ⟨n, -, rfl⟩ := unschedule_eq_ok hunsched
    have hnil : st.scheduledEncoderInputs.getD (st.sched.objs v).requestId [] = [] :=
      hun _ List.mem_cons_self
    refine h.mono ?_ (free_released _ _).thinned (fun id inputs i hget hi => ?_)
      fun id inputs hget => ?_
    · exact steady_update rfl rfl rfl rfl
    · have hne : (st.sched.objs v).requestId ≠ id := by
        rintro rfl
        rw [Dict.getD, hget] at hnil
        rw [show inputs = [] from hnil] at hi
        cases hi
      simpa [hne] using hget
    · have hget' : (st.scheduledEncoderInputs.erase (st.sched.objs v).requestId).get? id =
          some inputs := hget
      rw [Dict.get?_erase] at hget'
      split at hget'
      · cases hget'
      · rename_i hne
        obtain ⟨r, hr, hrs, hid⟩ := h.owner id inputs hget'
        have hrv : r ≠ v := by
          rintro rfl
          exact hne hid
        refine ⟨r, (List.mem_erase_of_ne hrv).mpr hr, ?_, hid⟩
        rw [hsched] at hrs
        exact List.mem_append_left _ ((List.mem_erase_of_ne hrv).mpr hrs)

theorem agrees_scheduleEncoder {w : List String} {r : Ref} {request : Request} {plan : EncoderPlan}
    (hst : st.scheduleEncoder request plan = .ok st') (h : Agrees w st)
    (hr : st.sched.requests.get? request.requestId = some r)
    (hfeatures : (st.sched.objs r).mmFeatures = request.mmFeatures)
    (hfresh : st.scheduledEncoderInputs.get? request.requestId = none)
    (hrun : r ∈ st.sched.running) (hsched : r ∈ st.scheduled)
    (hid : (st.sched.objs r).requestId = request.requestId)
    (hext : plan.externalLoadEncoderInput = []) : Agrees w st' := by
  obtain ⟨e₁, e, he₁, he, rfl⟩ := scheduleEncoder_eq_ok hst
  rw [hext] at he
  cases he
  obtain ⟨hd, hfreed, hcached⟩ := allocateEncoder_eq_ok h.decoderOnly he₁
  split
  · rename_i hnil
    rw [hnil] at he₁
    cases he₁
    exact h
  · rename_i hne
    refine ⟨hd, fun x hx => ?_, fun id inputs hget => ?_⟩
    · have hkeep : ∀ x, Sent st x → Sent { st.withEncoder e₁ with
          scheduledEncoderInputs :=
            st.scheduledEncoderInputs.set request.requestId plan.encoderInputsToSchedule
          encoderComputeBudget := plan.encoderComputeBudget } x := by
        intro x hx
        refine hx.mono ⟨rfl, fun _ => rfl, fun _ => rfl⟩ fun id inputs i hget _ => ?_
        have hneid : request.requestId ≠ id := by
          rintro rfl
          rw [hfresh] at hget
          cases hget
        simpa [hneid] using hget
      rcases hcached x hx with hx | ⟨i, hi, f, hf, rfl⟩
      · rcases h.cached x hx with ⟨hw, hnot⟩ | hsent
        · refine .inl ⟨hw, fun hf => hnot ?_⟩
          rw [← hfreed]
          exact hf
        · exact .inr (hkeep x hsent)
      · refine .inr ⟨request.requestId, plan.encoderInputsToSchedule, r, i, f, ?_, hi, hr, ?_, rfl⟩
        · simp
        · show (st.sched.objs r).mmFeatures[i]? = some f
          rw [hfeatures]
          exact hf
    · have hget' : (st.scheduledEncoderInputs.set request.requestId
          plan.encoderInputsToSchedule).get? id = some inputs := hget
      rw [Dict.get?_set] at hget'
      split at hget'
      · rename_i hid'
        exact ⟨r, hrun, hsched, hid.trans hid'⟩
      · exact h.owner id inputs hget'

theorem Agrees.fresh {w : List String} {r : Ref} (h : Agrees w st) (hl : st.sched.ledger.Ok)
    (hr : st.sched.ledger.Live r) (hnot : r ∈ st.sched.running → r ∉ st.scheduled) :
    st.scheduledEncoderInputs.get? (st.sched.objs r).requestId = none := by
  cases hget : st.scheduledEncoderInputs.get? (st.sched.objs r).requestId with
  | none => rfl
  | some inputs =>
    obtain ⟨x, hx, hxs, hid⟩ := h.owner _ inputs hget
    have hxr := hl.registered x (hl.live hx)
    have hrr := hl.registered r hr
    have hid' : st.sched.ledger.requestId x = st.sched.ledger.requestId r := hid
    rw [hid', hrr] at hxr
    obtain rfl := Option.some.inj hxr
    exact absurd hxs (hnot hx)

theorem Agrees.run {w : List String} {r : Ref} {n : Int} {blocks : List (List BlockId)}
    {plan : EncoderPlan} (h : Agrees w st) (hl : st.sched.ledger.Ok)
    (hadmitted : st.scheduledNewReqs ++ st.scheduledResumedReqs = [])
    (hr : r ∈ st.sched.running) (hfresh : r ∉ st.scheduledRunningReqs)
    (hext : plan.externalLoadEncoderInput = [])
    (hst : st.scheduleRunningRequest r n blocks plan = .ok st') : Agrees w st' := by
  have hnone := h.fresh hl (hl.live hr) fun _ => by
    rw [scheduled, hadmitted, List.append_nil]
    exact hfresh
  have hfeatures := st.sched.modify_field (r := r) (f := fun q => { q with specTokenIds := [] })
    Request.mmFeatures rfl r
  have hids := st.sched.modify_field (r := r) (f := fun q => { q with specTokenIds := [] })
    Request.requestId rfl r
  unfold scheduleRunningRequest at hst
  refine agrees_scheduleEncoder (r := r) hst ?_ (hl.registered r (hl.live hr)) hfeatures hnone hr ?_
    hids hext
  · refine h.mono (steady_update rfl rfl rfl rfl) (.refl _) (fun _ _ _ hget _ => hget)
      fun id inputs hget => ?_
    obtain ⟨x, hx, hxs, hid⟩ := h.owner id inputs hget
    refine ⟨x, hx, ?_, hid⟩
    rcases List.mem_append.mp hxs with hxs | hxs
    · exact List.mem_append_left _ (List.mem_append_left _ hxs)
    · exact List.mem_append_right _ hxs
  · exact List.mem_append_left _ (List.mem_append_right _ (List.mem_singleton.mpr rfl))

theorem Agrees.admitRequest {w : List String} {skipped : Bool} {n : Int} {pre : ComputedPrefix}
    {plan : EncoderPlan} (h : Agrees w st) (hk : st.sched.ledger.Kept st.queued)
    (hext : plan.externalLoadEncoderInput = [])
    (hst : st.admitRequest c skipped n pre plan = .ok st') : Agrees w st' := by
  obtain ⟨r, s, new, resumed, loras, hpop, hstatus, hst⟩ := admitRequest_eq_ok hst
  obtain ⟨hsel, -, waiting, skippedWaiting, rfl⟩ := popSelected_eq_ok hpop
  have hlive : st.sched.ledger.Live r := by
    refine ⟨hk.bound r (mem_queued_of_selected hsel), ?_⟩
    show (st.sched.objs r).status.isFinished = false
    rcases hstatus with ⟨hs, -⟩ | ⟨hs, -⟩
    · rw [show (st.sched.objs r).status = .waiting from hs]
      rfl
    · rw [show (st.sched.objs r).status = .preempted from hs]
      rfl
  have hnotrun : r ∉ st.sched.running := by
    intro hr
    have hrun : (st.sched.objs r).status = .running := ((hk.running_iff r).mp hr).2
    rcases hstatus with ⟨hs, -⟩ | ⟨hs, -⟩
    · rw [show (st.sched.objs r).status = .waiting from hs] at hrun
      cases hrun
    · rw [show (st.sched.objs r).status = .preempted from hs] at hrun
      cases hrun
  have hnone := h.fresh hk.toOk hlive fun hr => absurd hr hnotrun
  have hmem : r ∈ new ++ resumed ∧ ∀ x, x ∈ st.scheduledNewReqs ++ st.scheduledResumedReqs →
      x ∈ new ++ resumed := by
    rcases hstatus with ⟨-, rfl, rfl⟩ | ⟨-, rfl, rfl⟩
    · simp only [List.mem_append, List.mem_singleton]
      tauto
    · simp only [List.mem_append, List.mem_singleton]
      tauto
  refine agrees_scheduleEncoder (r := r) hst ?_ (hk.registered r hlive)
    (modify_field _ Request.mmFeatures rfl r) hnone ?_ ?_ (modify_field _ Request.requestId rfl r)
    hext
  · refine h.mono ?_ (.refl _) (fun _ _ _ hget _ => hget) fun id inputs hget => ?_
    · exact steady_update rfl rfl rfl rfl
    · obtain ⟨x, hx, hxs, hid⟩ := h.owner id inputs hget
      refine ⟨x, List.mem_append_left _ hx, ?_, hid⟩
      rcases List.mem_append.mp hxs with hxs | hxs
      · exact List.mem_append_left _ hxs
      · exact List.mem_append_right _ (hmem.2 x hxs)
  · exact List.mem_append_right _ (List.mem_singleton.mpr rfl)
  · exact List.mem_append_right _ hmem.1

theorem Agrees.promote {w : List String} {r : Ref} {s : Scheduler} (h : Agrees w st)
    (hs : tryPromote c env st.sched r = .ok (true, s)) : Agrees w { st with sched := s } := by
  rcases tryPromote_cases hs with ⟨hs, -⟩ | ⟨-, -, rfl⟩ | ⟨-, -, a, b, kv, d, e, rfl⟩
  · cases hs
  · exact h.keep (steady_update rfl rfl rfl rfl) (.refl _) rfl rfl rfl
  · exact h.keep (steady_update rfl rfl rfl rfl) (.refl _) rfl rfl rfl

theorem Agrees.skip {w : List String} {skipped : Bool} (h : Agrees w st)
    (hs : st.skipSelected c skipped = .ok st') : Agrees w st' := by
  simp only [skipSelected, Result.bind_eq_ok, Prod.exists, Result.pure_eq_ok] at hs
  obtain ⟨r, s, hpop, rfl⟩ := hs
  obtain ⟨-, -, waiting, skippedWaiting, rfl⟩ := popSelected_eq_ok hpop
  exact h.keep ⟨rfl, fun _ => rfl, fun _ => rfl⟩ (.refl _) rfl rfl rfl

theorem Agrees.load {w : List String} {skipped : Bool} {pre : ComputedPrefix} (h : Agrees w st)
    (hs : st.startLoad c skipped pre = .ok st') : Agrees w st' := by
  simp only [startLoad, Result.bind_eq_ok, Prod.exists, Result.pure_eq_ok] at hs
  obtain ⟨r, s, hpop, rfl⟩ := hs
  obtain ⟨-, -, waiting, skippedWaiting, rfl⟩ := popSelected_eq_ok hpop
  refine h.keep ?_ (.refl _) rfl rfl rfl
  dsimp only
  refine .trans ?_ (steady_modify _ rfl rfl)
  refine .trans ?_ (steady_modify _ rfl rfl)
  exact ⟨rfl, fun _ => rfl, fun _ => rfl⟩

theorem Move.agrees {w : List String} (hm : Move c env st st')
    (hk : st.sched.ledger.Kept st.queued) (henv : env.hasCacheItem = fun _ => false)
    (hun : ∀ x ∈ st'.unscheduled, x.2 = []) (h : Agrees w st) : Agrees w st' := by
  have hn : st.sched.running.Nodup := Multiset.coe_nodup.mp hk.nodup
  have hkv : ∀ kv, Agrees w (st.withKv kv) := fun kv =>
    h.keep ⟨rfl, fun _ => rfl, fun _ => rfl⟩ (.refl _) rfl rfl rfl
  cases hm with
  | encoder hplan =>
    exact h.keep ⟨rfl, fun _ => rfl, fun _ => rfl⟩ (tryScheduleEncoderInputs_laws henv hplan).1
      rfl rfl rfl
  | noSlots => exact hkv _
  | preempt hadmitted hpriority hv hp => exact h.preempt hn hadmitted hv hp hpriority hun
  | run hadmitted hr hfresh hplan _ _ _ hst =>
    exact (hkv _).run (by exact hk.toOk) (by exact hadmitted) (by exact hr) (by exact hfresh)
      (tryScheduleEncoderInputs_laws henv hplan).2 hst
  | loras hst =>
    obtain ⟨loras, rfl⟩ := recordLoras_frame hst
    exact h.keep ⟨rfl, fun _ => rfl, fun _ => rfl⟩ (.refl _) rfl rfl rfl
  | promote _ _ hs => exact h.promote hs
  | skip hs => exact h.skip hs
  | computed hs =>
    rcases computedPrefix_frame hs with rfl | ⟨-, ext, rfl⟩
    · exact h
    · exact h.keep (steady_update rfl rfl rfl rfl) (.refl _) rfl rfl rfl
  | noRoom =>
    split
    · exact h.keep ⟨rfl, fun _ => rfl, fun _ => rfl⟩ (free_released _ _).thinned rfl rfl rfl
    · exact hkv _
  | load _ _ _ hst => exact (hkv _).load hst
  | admitRequest _ _ hplan hasync _ _ hst =>
    rcases planWaiting_cases hplan with ⟨hload, -⟩ | ⟨-, n, -, -, hp⟩
    · rw [hasync] at hload
      cases hload
    · exact (hkv _).admitRequest (by exact hk) (tryScheduleEncoderInputs_laws henv hp).2 hst
  | requeue => exact h.keep ⟨rfl, fun _ => rfl, fun _ => rfl⟩ (.refl _) rfl rfl rfl

theorem Move.unscheduled_subset (hm : Move c env st st') (hn : st.sched.running.Nodup) :
    st.unscheduled ⊆ st'.unscheduled := by
  cases hm with
  | preempt _ _ hv hp =>
    obtain ⟨s, -, rfl⟩ := preempt_eq_ok hp
    obtain ⟨-, hcase⟩ := takeVictim_cases hn hv
    rcases hcase with ⟨-, -, -, rfl⟩ | ⟨-, -, -, hun⟩
    · exact List.Subset.refl _
    · obtain ⟨n, -, rfl⟩ := unschedule_eq_ok hun
      exact List.subset_cons_self _ _
  | run _ _ _ _ _ _ _ hst =>
    obtain ⟨e, inputs, budget, rfl⟩ := scheduleEncoder_frame hst
    exact List.Subset.refl _
  | loras hst =>
    obtain ⟨loras, rfl⟩ := recordLoras_frame hst
    exact List.Subset.refl _
  | skip hs =>
    simp only [skipSelected, Result.bind_eq_ok, Prod.exists, Result.pure_eq_ok] at hs
    obtain ⟨r, s, -, rfl⟩ := hs
    exact List.Subset.refl _
  | noRoom =>
    split
    · exact List.Subset.refl _
    · exact List.Subset.refl _
  | load _ _ _ hs =>
    simp only [startLoad, Result.bind_eq_ok, Prod.exists, Result.pure_eq_ok] at hs
    obtain ⟨r, s, -, rfl⟩ := hs
    exact List.Subset.refl _
  | admitRequest _ _ _ _ _ _ hst =>
    obtain ⟨r, s, new, resumed, loras, -, -, hst⟩ := admitRequest_eq_ok hst
    obtain ⟨e, inputs, budget, rfl⟩ := scheduleEncoder_frame hst
    exact List.Subset.refl _
  | encoder => exact List.Subset.refl _
  | noSlots => exact List.Subset.refl _
  | promote => exact List.Subset.refl _
  | computed => exact List.Subset.refl _
  | requeue => exact List.Subset.refl _

theorem Moves.agrees {w : List String} (hm : Moves c env st st')
    (hk : st.sched.ledger.Kept st.queued)
    (hload : c.hasConnector = true → st.sched.ledger.Exact st.queued)
    (henv : env.hasCacheItem = fun _ => false) (hun : ∀ x ∈ st'.unscheduled, x.2 = [])
    (h : Agrees w st) : Agrees w st' := by
  induction hm with
  | refl => exact h
  | tail hms hm ih =>
    have hk₁ := (Moves.keepsBooks hms hk hload).1
    have hn := Multiset.coe_nodup.mp hk₁.nodup
    exact hm.agrees hk₁ henv hun (ih fun x hx => hun x (hm.unscheduled_subset hn hx))

end Step

end Vllm
