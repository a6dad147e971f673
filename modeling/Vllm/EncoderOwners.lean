import Vllm.EncoderPins
import Vllm.RunningFrame
import Vllm.UpdateLoop

namespace Vllm

open EncoderCacheManager

namespace Scheduler

variable {s s' s₁ : Scheduler} {r v : Ref} {h : String} {id : ReqId} {holders holders' : List Ref}

def Owner (s : Scheduler) (holders : List Ref) (h : String) (id : ReqId) : Prop :=
  ∃ r ∈ holders, (s.objs r).requestId = id ∧ h ∈ (s.objs r).mmHashes

structure Owned (s : Scheduler) (holders : List Ref) : Prop where
  decoderOnly : s.encoderCacheManager.isEncoderDecoder = false
  owner : ∀ h id, s.encoderCacheManager.Pins h id → s.Owner holders h id

structure KeepsItems (s s' : Scheduler) : Prop where
  requestId : ∀ r, (s'.objs r).requestId = (s.objs r).requestId
  mmHashes : ∀ r, (s.objs r).mmHashes ⊆ (s'.objs r).mmHashes

theorem KeepsItems.refl (s : Scheduler) : KeepsItems s s := ⟨fun _ => rfl, fun _ => List.Subset.refl _⟩

theorem KeepsItems.trans (h : KeepsItems s s₁) (h' : KeepsItems s₁ s') : KeepsItems s s' :=
  ⟨fun r => (h'.requestId r).trans (h.requestId r), fun r => List.Subset.trans (h.mmHashes r) (h'.mmHashes r)⟩

theorem keepsItems_update {q : Request} (hobjs : s'.objs = Function.update s.objs r q)
    (hid : q.requestId = (s.objs r).requestId) (hitems : (s.objs r).mmHashes ⊆ q.mmHashes) :
    KeepsItems s s' := by
  constructor
  · intro x
    rw [hobjs, Function.update_apply]
    split
    · rename_i heq
      rw [heq, hid]
    · rfl
  · intro x
    rw [hobjs, Function.update_apply]
    split
    · rename_i heq
      rw [heq]
      exact hitems
    · exact List.Subset.refl _

theorem Owner.keep (ho : s.Owner holders h id) (hitems : KeepsItems s s')
    (hkept : ∀ r ∈ holders, r ∈ holders') : s'.Owner holders' h id := by
  obtain ⟨r, hr, hid, hh⟩ := ho
  exact ⟨r, hkept r hr, (hitems.requestId r).trans hid, hitems.mmHashes r hh⟩

theorem Owned.keep (ho : s.Owned holders) (hitems : KeepsItems s s') (hkept : ∀ r ∈ holders, r ∈ holders')
    (hpins : Unpins s.encoderCacheManager s'.encoderCacheManager) : s'.Owned holders' where
  decoderOnly := hpins.same.trans ho.decoderOnly
  owner x id hp := (ho.owner x id (hpins.pins x id hp)).keep hitems hkept

theorem Owned.pin {request : Request} (ho : s.Owned holders) (hitems : KeepsItems s s')
    (hkept : ∀ r ∈ holders, r ∈ holders') (hr : r ∈ holders')
    (hid : (s'.objs r).requestId = request.requestId) (hmm : request.mmHashes ⊆ (s'.objs r).mmHashes)
    (hpins : PinsFor request s.encoderCacheManager s'.encoderCacheManager) : s'.Owned holders' where
  decoderOnly := hpins.same.trans ho.decoderOnly
  owner x id hp := by
    rcases hpins.pins x id hp with hp | ⟨rfl, hx⟩
    · exact (ho.owner x id hp).keep hitems hkept
    · exact ⟨r, hr, hid, hmm hx⟩

theorem Owned.free (ho : s.Owned holders) (hitems : KeepsItems s s')
    (hkept : ∀ r ∈ holders, r ≠ v → r ∈ holders')
    (he : s'.encoderCacheManager = s.encoderCacheManager.free (s.objs v)) : s'.Owned holders' where
  decoderOnly := by
    rw [he]
    exact (free_released _ _).same.trans ho.decoderOnly
  owner x id hp := by
    rw [he] at hp
    obtain ⟨hp, hnot⟩ := free_pins ho.decoderOnly hp
    obtain ⟨r, hr, hid, hx⟩ := ho.owner x id hp
    have hne : r ≠ v := by
      rintro rfl
      exact hnot hid.symm hx
    exact ⟨r, hkept r hr hne, (hitems.requestId r).trans hid, hitems.mmHashes r hx⟩

end Scheduler

namespace Step

open Scheduler

variable {c : SchedulerConfig} {env : Outside} {s₀ : Scheduler} {st st' st₁ : Step} {r v : Ref}

theorem Steady.keepsItems {s s' : Scheduler} (h : Steady s s') : KeepsItems s s' where
  requestId := h.requestId
  mmHashes r := by
    rw [Request.mmHashes, Request.mmHashes, h.features]
    exact List.Subset.refl _

structure Tidy (s₀ : Scheduler) (st : Step) : Prop where
  steady : Steady s₀ st.sched
  nextRef : st.sched.nextRef = s₀.nextRef
  running : ∀ r ∈ st.sched.running, r < s₀.nextRef
  queued : ∀ r ∈ st.queued, r < s₀.nextRef
  owned : st.sched.Owned st.sched.running

theorem Tidy.keep (h : Tidy s₀ st) (hsteady : Steady st.sched st'.sched)
    (hnext : st'.sched.nextRef = st.sched.nextRef) (hrun : st'.sched.running = st.sched.running)
    (hqueued : ∀ r ∈ st'.queued, r ∈ st.queued)
    (hpins : Unpins st.sched.encoderCacheManager st'.sched.encoderCacheManager) : Tidy s₀ st' where
  steady := h.steady.trans hsteady
  nextRef := hnext.trans h.nextRef
  running := by
    rw [hrun]
    exact h.running
  queued r hr := h.queued r (hqueued r hr)
  owned := h.owned.keep hsteady.keepsItems (fun r hr => hrun ▸ hr) hpins

theorem Tidy.withKv (h : Tidy s₀ st) (kv : KVCacheManager) : Tidy s₀ (st.withKv kv) :=
  h.keep ⟨rfl, fun _ => rfl, fun _ => rfl⟩ rfl rfl (fun _ => id) (.refl _)

theorem Tidy.pin (h : Tidy s₀ st) {request : Request} (hsteady : Steady st.sched st'.sched)
    (hnext : st'.sched.nextRef = st.sched.nextRef) (hrun : st'.sched.running = st.sched.running)
    (hqueued : ∀ r ∈ st'.queued, r ∈ st.queued) (hr : r ∈ st.sched.running)
    (hid : (st.sched.objs r).requestId = request.requestId)
    (hfeatures : (st.sched.objs r).mmFeatures = request.mmFeatures)
    (hpins : PinsFor request st.sched.encoderCacheManager st'.sched.encoderCacheManager) : Tidy s₀ st' where
  steady := h.steady.trans hsteady
  nextRef := hnext.trans h.nextRef
  running := by
    rw [hrun]
    exact h.running
  queued r hr := h.queued r (hqueued r hr)
  owned := by
    refine h.owned.pin (r := r) hsteady.keepsItems (fun r hr => hrun ▸ hr) (hrun ▸ hr)
      ((hsteady.requestId r).trans hid) ?_ hpins
    rw [Request.mmHashes, Request.mmHashes, hsteady.features, hfeatures]
    exact List.Subset.refl _

theorem Tidy.preempt (h : Tidy s₀ st) {i j : Nat} (hv : st.takeVictim c i = .ok (v, j, st₁))
    (hp : st₁.preempt c v = .ok st') :
    Tidy s₀ st' ∧ ∀ r ∈ st.sched.running, r ≠ v → r ∈ st'.sched.running := by
  have htakes := takeVictim_takes hv
  obtain ⟨running, hsched, hsub, hothers⟩ := htakes.sched
  obtain ⟨s, hs, rfl⟩ := preempt_eq_ok hp
  obtain ⟨-, hqueued⟩ := preemptRequest_books hs
  obtain ⟨-, rfl⟩ := preemptRequest_eq_ok hs
  have hsteady : Steady st.sched { st₁.sched with
      kvCacheManager := st₁.sched.kvCacheManager.free (st₁.sched.objs v).requestId
      encoderCacheManager := st₁.sched.encoderCacheManager.free (st₁.sched.objs v)
      objs := Function.update st₁.sched.objs v (markPreempted (st₁.sched.objs v))
      waiting := RequestQueue.prependRequest c.policy (st₁.sched.modify v markPreempted).lt
        st₁.sched.waiting v } := by
    rw [hsched]
    exact steady_update rfl rfl rfl rfl
  refine ⟨⟨h.steady.trans hsteady, ?_, ?_, fun r hr => ?_, ?_⟩, ?_⟩
  · rw [← h.nextRef, hsched]
  · intro r hr
    rw [hsched] at hr
    exact h.running r (hsub.subset hr)
  · have hr : r ∈ (_ : Multiset Ref) + (st₁.stepSkippedWaiting : Multiset Ref) := hr
    rw [hqueued, hsched, htakes.aside, Multiset.cons_add, Multiset.mem_cons] at hr
    rcases hr with rfl | hr
    · exact h.running r htakes.mem
    · exact h.queued r hr
  · refine h.owned.free (v := v) hsteady.keepsItems (fun r hr hne => ?_) ?_
    · rw [hsched]
      exact hothers r hr hne
    · rw [hsched]
  · intro r hr hne
    rw [hsched]
    exact hothers r hr hne

theorem allocateOrPreempt_tidy {n : Int} {fuel j j' : Nat} {blocks : Option (List (List BlockId))}
    (h : Tidy s₀ st) (hr : r ∈ st.sched.running)
    (hok : allocateOrPreempt c r n fuel j st = .ok (blocks, j', st')) :
    Tidy s₀ st' ∧ (blocks ≠ none → r ∈ st'.sched.running) := by
  induction fuel generalizing j st with
  | zero => cases hok
  | succ fuel ih =>
    simp only [allocateOrPreempt, Result.bind_eq_ok, Prod.exists] at hok
    obtain ⟨newBlocks, kv, -, hok⟩ := hok
    have hkv := h.withKv kv
    split at hok
    · cases hok
      exact ⟨hkv, fun _ => hr⟩
    · simp only [Result.bind_eq_ok, Prod.exists] at hok
      obtain ⟨v, j₁, st₁, hv, st₂, hp, hok⟩ := hok
      obtain ⟨htidy, hothers⟩ := hkv.preempt hv hp
      split at hok
      · cases hok
        exact ⟨htidy, fun hne => absurd rfl hne⟩
      · rename_i hne
        exact ih htidy (hothers r hr (Ne.symm hne)) hok

theorem scheduleEncoder_pinsFor {request : Request} {plan : EncoderPlan}
    (hok : st.scheduleEncoder request plan = .ok st') :
    PinsFor request st.sched.encoderCacheManager st'.sched.encoderCacheManager := by
  obtain ⟨e₁, e, he₁, he, rfl⟩ := scheduleEncoder_eq_ok hok
  have hpins := (allocateEncoder_pinsFor he₁).trans (allocateEncoder_pinsFor he)
  split
  · exact hpins
  · exact hpins

theorem Tidy.scheduleRunningRequest (h : Tidy s₀ st) {n : Int} {blocks : List (List BlockId)}
    {plan : EncoderPlan} (hr : r ∈ st.sched.running)
    (hok : st.scheduleRunningRequest r n blocks plan = .ok st') : Tidy s₀ st' := by
  obtain ⟨-, hqueued⟩ := sameBooks_scheduleRunningRequest hok
  have hpins := scheduleEncoder_pinsFor hok
  obtain ⟨e, inputs, budget, rfl⟩ := scheduleEncoder_frame hok
  refine h.pin (r := r) ?_ rfl rfl (fun x hx => ?_) hr rfl rfl hpins
  · exact steady_update rfl rfl rfl rfl
  · rw [← hqueued]
    exact hx

theorem visitRunning_tidy {j j' : Nat} {goOn : Bool} (h : Tidy s₀ st) (hr : r ∈ st.sched.running)
    (hok : st.visitRunning c env j r = .ok (goOn, j', st')) : Tidy s₀ st' := by
  unfold visitRunning at hok
  dsimp only at hok
  split at hok
  · cases hok
    exact h
  · simp only [Result.bind_eq_ok] at hok
    obtain ⟨plan, hplan, n, -, hok⟩ := hok
    have hpinned : Tidy s₀ (st.withEncoder plan.encoder) :=
      h.pin ⟨rfl, fun _ => rfl, fun _ => rfl⟩ rfl rfl (fun _ => id) hr rfl rfl
        (tryScheduleEncoderInputs_pinsFor hplan)
    split at hok
    · cases hok
      exact hpinned
    · simp only [Result.bind_eq_ok, Prod.exists] at hok
      obtain ⟨newBlocks, j₁, st₁, halloc, hok⟩ := hok
      obtain ⟨htidy, hstill⟩ := allocateOrPreempt_tidy hpinned hr halloc
      cases newBlocks with
      | none =>
        cases hok
        exact htidy
      | some blocks =>
        simp only [Result.bind_eq_ok, Result.pure_eq_ok, Prod.mk.injEq] at hok
        obtain ⟨st₂, hrun, -, -, rfl⟩ := hok
        exact htidy.scheduleRunningRequest (hstill (Option.some_ne_none blocks)) hrun

theorem scheduleRunning_tidy {fuel j : Nat} (h : Tidy s₀ st)
    (hok : st.scheduleRunning c env fuel j = .ok st') : Tidy s₀ st' := by
  induction fuel generalizing j st with
  | zero =>
    cases hok
    exact h
  | succ fuel ih =>
    unfold scheduleRunning at hok
    split at hok
    · split at hok
      · cases hok
        exact h
      · rename_i r hr
        simp only [Result.bind_eq_ok, Prod.exists] at hok
        obtain ⟨goOn, j₁, st₁, hvisit, hok⟩ := hok
        have htidy := visitRunning_tidy h (List.mem_of_getElem? hr) hvisit
        split at hok
        · exact ih htidy hok
        · cases hok
          exact htidy
    · cases hok
      exact h

def roundPlan (c : SchedulerConfig) (env : Outside) (st : Step) :
    Option (Request × ComputedPrefix × EncoderPlan) := do
  let r ← selected st.sched (selectsSkipped c st.sched)
  let (ready, sched) ←
    (if isBlockedWaitingStatus (st.sched.objs r).status then tryPromote c env st.sched r
    else .ok (true, st.sched) : Result (Bool × Scheduler)).toOption
  if !ready || exceedsLoras c { st with sched } (sched.objs r) then none
  else
    let (pre, sched) ← (computedPrefix c env sched r).toOption
    let pre ← pre
    let plan ← (planWaiting c env { st with sched } (sched.objs r) pre).toOption
    let plan ← plan
    return (sched.objs r, pre, plan)

def findsNoTokens (c : SchedulerConfig) (request : Request) (pre : ComputedPrefix) (plan : EncoderPlan) : Bool :=
  (!pre.loadKvAsync && request.hasEncoderInputs && plan.numNewTokens == 0) ||
    (c.needMambaBlockAlignedSplit && Result.holds (alignedNewTokens c request plan.numNewTokens
      pre.numNewLocalComputedTokens pre.numExternalComputedTokens) (· == 0))

def givesUpPinned (c : SchedulerConfig) (env : Outside) (st : Step) : Bool :=
  match st.roundPlan c env with
  | none => false
  | some (request, pre, plan) =>
    findsNoTokens c request pre plan && plan.encoder.isPinnedBy request.requestId

theorem Tidy.skip (h : Tidy s₀ st) {skipped : Bool} (hok : st.skipSelected c skipped = .ok st') :
    Tidy s₀ st' := by
  obtain ⟨-, hqueued⟩ := sameBooks_skipSelected hok
  simp only [skipSelected, Result.bind_eq_ok, Prod.exists, Result.pure_eq_ok] at hok
  obtain ⟨r, s, hpop, rfl⟩ := hok
  obtain ⟨-, -, waiting, skippedWaiting, rfl⟩ := popSelected_eq_ok hpop
  exact h.keep ⟨rfl, fun _ => rfl, fun _ => rfl⟩ rfl rfl (fun x hx => hqueued ▸ hx) (.refl _)

theorem Tidy.load (h : Tidy s₀ st) {skipped : Bool} {pre : ComputedPrefix}
    (hok : st.startLoad c skipped pre = .ok st') : Tidy s₀ st' := by
  simp only [startLoad, Result.bind_eq_ok, Prod.exists, Result.pure_eq_ok] at hok
  obtain ⟨r, s, hpop, rfl⟩ := hok
  obtain ⟨-, hqueued, waiting, skippedWaiting, rfl⟩ := popSelected_eq_ok hpop
  refine h.keep ?_ rfl rfl (fun x hx => ?_) (.refl _)
  · dsimp only
    refine .trans ?_ (steady_modify _ rfl rfl)
    exact steady_update rfl rfl rfl rfl
  · unfold Step.queued at hx ⊢
    dsimp only at hx
    rw [Multiset.coe_eq_coe.mpr (RequestQueue.prependRequest_perm _ r), ← Multiset.cons_coe,
      Multiset.add_cons] at hx
    rw [hqueued, Multiset.cons_add]
    exact hx

theorem Tidy.admitRequest {plan : EncoderPlan} (h : Tidy s₀ st) {skipped : Bool} {n : Int} {pre : ComputedPrefix}
    (hsel : selected st.sched skipped = some r)
    (hok : (st.withEncoder plan.encoder).admitRequest c skipped n pre plan = .ok st')
    (hpins : PinsFor (st.sched.objs r) st.sched.encoderCacheManager plan.encoder) : Tidy s₀ st' := by
  obtain ⟨r', s, new, resumed, loras, hpop, -, hst⟩ := admitRequest_eq_ok hok
  obtain ⟨hsel', hqueued, waiting, skippedWaiting, rfl⟩ := popSelected_eq_ok hpop
  obtain rfl : r = r' := Option.some_inj.mp (hsel.symm.trans hsel')
  have halloc := scheduleEncoder_pinsFor hst
  obtain ⟨e, inputs, budget, rfl⟩ := scheduleEncoder_frame hst
  have hpinned := hpins.trans halloc
  have hbound : ∀ x ∈ st.queued, x < s₀.nextRef := h.queued
  have hqueued : st.sched.queued = r ::ₘ ((waiting : Multiset Ref) + (skippedWaiting : Multiset Ref)) := hqueued
  unfold Step.queued at hbound
  rw [hqueued, Multiset.cons_add] at hbound
  have hsteady : Steady st.sched
      (({ st.sched with
        running := st.sched.running ++ [r], waiting, skippedWaiting, encoderCacheManager := e } :
          Scheduler).modify r (started pre)) := steady_update rfl rfl rfl rfl
  refine ⟨h.steady.trans hsteady, h.nextRef, fun x hx => ?_, fun x hx => ?_, ?_⟩
  · rcases List.mem_append.mp hx with hx | hx
    · exact h.running x hx
    · rw [List.mem_singleton.mp hx]
      exact hbound r (Multiset.mem_cons_self r _)
  · exact hbound x (Multiset.mem_cons_of_mem hx)
  · refine h.owned.pin (r := r) hsteady.keepsItems (fun x hx => List.mem_append_left _ hx) ?_ ?_ ?_ hpinned
    · exact List.mem_append_right _ (List.mem_singleton_self r)
    · exact hsteady.requestId r
    · exact hsteady.keepsItems.mmHashes r

structure Looking (s₀ : Scheduler) (st : Step) (r : Ref) (plan : EncoderPlan) : Prop where
  tidy : Tidy s₀ st
  pins : PinsFor (st.sched.objs r) st.sched.encoderCacheManager plan.encoder

theorem Looking.tidy_of_unpinned {plan : EncoderPlan} (h : Looking s₀ st r plan)
    (hno : plan.encoder.isPinnedBy (st.sched.objs r).requestId = false) :
    Tidy s₀ (st.withEncoder plan.encoder) := by
  refine h.tidy.keep ⟨rfl, fun _ => rfl, fun _ => rfl⟩ rfl rfl (fun _ => id) ⟨h.pins.same, fun x id hp => ?_⟩
  rcases h.pins.pins x id hp with hold | ⟨rfl, -⟩
  · exact hold
  · have hyes : plan.encoder.isPinnedBy (st.sched.objs r).requestId = true := isPinnedBy_of_pins hp
    rw [hno] at hyes
    cases hyes

theorem Looking.tidy_of_free {plan : EncoderPlan} (h : Looking s₀ st r plan) :
    Tidy s₀ (st.withEncoder (plan.encoder.free (st.sched.objs r))) := by
  have hd : plan.encoder.isEncoderDecoder = false := h.pins.same.trans h.tidy.owned.decoderOnly
  refine h.tidy.keep ⟨rfl, fun _ => rfl, fun _ => rfl⟩ rfl rfl (fun _ => id) ⟨?_, fun x id hp => ?_⟩
  · exact (free_released _ _).same.trans h.pins.same
  · obtain ⟨hp, hnot⟩ := free_pins hd hp
    rcases h.pins.pins x id hp with hold | ⟨rfl, hx⟩
    · exact hold
    · exact absurd hx (hnot rfl)

theorem Looking.tidy_of_noInputs {plan : EncoderPlan} (h : Looking s₀ st r plan)
    (hno : (st.sched.objs r).hasEncoderInputs = false) : Tidy s₀ (st.withEncoder plan.encoder) := by
  have hnil : (st.sched.objs r).mmFeatures = [] := by
    simpa [Request.hasEncoderInputs] using hno
  refine h.tidy.keep ⟨rfl, fun _ => rfl, fun _ => rfl⟩ rfl rfl (fun _ => id) ⟨h.pins.same, fun x id hp => ?_⟩
  rcases h.pins.pins x id hp with hold | ⟨-, hx⟩
  · exact hold
  · rw [Request.mmHashes, hnil] at hx
    cases hx

theorem Looking.withKv {plan : EncoderPlan} (h : Looking s₀ st r plan) (kv : KVCacheManager) :
    Looking s₀ (st.withKv kv) r plan :=
  ⟨h.tidy.withKv kv, h.pins⟩

theorem Looking.placeWaiting {plan : EncoderPlan} (h : Looking s₀ st r plan) {skipped goOn : Bool} {n : Int}
    {pre : ComputedPrefix} (hsel : selected st.sched skipped = some r)
    (hload : pre.loadKvAsync = true → plan.encoder = st.sched.encoderCacheManager)
    (hok : (st.withEncoder plan.encoder).placeWaiting c skipped r n pre plan = .ok (goOn, st')) :
    Tidy s₀ st' := by
  simp only [Step.placeWaiting, Result.bind_eq_ok, Prod.exists] at hok
  obtain ⟨newBlocks, kv, -, hok⟩ := hok
  have hkv := h.withKv kv
  cases newBlocks with
  | none =>
    cases hok
    split
    · exact hkv.tidy_of_free
    · rename_i hno
      exact hkv.tidy_of_noInputs (Bool.eq_false_iff.mpr hno)
  | some blocks =>
    dsimp only at hok
    split at hok
    · rename_i hasync
      simp only [Result.bind_eq_ok, Result.pure_eq_ok, Prod.mk.injEq] at hok
      obtain ⟨st₁, hst, -, rfl⟩ := hok
      refine Tidy.load ?_ hst
      refine (h.tidy.withKv kv).keep ⟨rfl, fun _ => rfl, fun _ => rfl⟩ rfl rfl (fun _ => id) ?_
      show Unpins st.sched.encoderCacheManager plan.encoder
      rw [hload hasync]
      exact .refl _
    · simp only [Result.bind_eq_ok, Result.pure_eq_ok, Prod.mk.injEq] at hok
      obtain ⟨st₁, hst, -, rfl⟩ := hok
      exact hkv.tidy.admitRequest hsel hst hkv.pins

theorem Tidy.looking (h : Tidy s₀ st) {pre : ComputedPrefix} {plan : EncoderPlan}
    (hplan : planWaiting c env st (st.sched.objs r) pre = .ok (some plan)) :
    Looking s₀ st r plan ∧ (pre.loadKvAsync = true → plan.encoder = st.sched.encoderCacheManager) := by
  rcases planWaiting_cases hplan with ⟨-, hidle⟩ | ⟨hload, n, -, -, hp⟩
  · refine ⟨⟨h, ?_⟩, fun _ => hidle⟩
    rw [hidle]
    exact (Unpins.refl _).pinsFor _
  · refine ⟨⟨h, tryScheduleEncoderInputs_pinsFor hp⟩, fun hasync => ?_⟩
    rw [hload] at hasync
    cases hasync

theorem Tidy.computed (h : Tidy s₀ st) {pre : Option ComputedPrefix} {s : Scheduler}
    (hok : computedPrefix c env st.sched r = .ok (pre, s)) :
    Tidy s₀ { st with sched := s } ∧ ∀ skipped, selected s skipped = selected st.sched skipped := by
  rcases computedPrefix_frame hok with rfl | ⟨-, ext, rfl⟩
  · exact ⟨h, fun _ => rfl⟩
  · exact ⟨h.keep (steady_update rfl rfl rfl rfl) rfl rfl (fun _ => id) (.refl _), fun _ => rfl⟩

theorem tryWaiting_tidy {skipped goOn : Bool} (h : Tidy s₀ st) (hsel : selected st.sched skipped = some r)
    (hno : goOn = false → ∀ pre s plan, computedPrefix c env st.sched r = .ok (some pre, s) →
      planWaiting c env { st with sched := s } (s.objs r) pre = .ok (some plan) →
      findsNoTokens c (s.objs r) pre plan = true → plan.encoder.isPinnedBy (s.objs r).requestId = false)
    (hok : st.tryWaiting c env skipped r = .ok (goOn, st')) : Tidy s₀ st' := by
  simp only [tryWaiting, Result.bind_eq_ok, Prod.exists] at hok
  obtain ⟨pre, s, hpre, hok⟩ := hok
  obtain ⟨hcomputed, hsel'⟩ := h.computed hpre
  cases pre with
  | none =>
    simp only [Result.bind_eq_ok, Result.pure_eq_ok, Prod.mk.injEq] at hok
    obtain ⟨st₁, hst, -, rfl⟩ := hok
    exact hcomputed.skip hst
  | some pre =>
    simp only [Result.bind_eq_ok] at hok
    obtain ⟨plan, hplan, hok⟩ := hok
    cases plan with
    | none =>
      cases hok
      exact hcomputed
    | some plan =>
      obtain ⟨hlooking, hload⟩ := hcomputed.looking hplan
      dsimp only at hok
      split at hok
      · rename_i hzero
        cases hok
        refine hlooking.tidy_of_unpinned (hno rfl pre s plan hpre hplan ?_)
        rw [findsNoTokens, Bool.or_eq_true]
        exact .inl hzero
      · simp only [Result.bind_eq_ok] at hok
        obtain ⟨n, hn, hok⟩ := hok
        split at hok
        · rename_i hzero
          cases hok
          refine hlooking.tidy_of_unpinned (hno rfl pre s plan hpre hplan ?_)
          rw [Bool.and_eq_true] at hzero
          rw [findsNoTokens, Bool.or_eq_true]
          refine .inr (Bool.and_eq_true_iff.mpr ⟨hzero.1, ?_⟩)
          have hn' : alignedNewTokens c (s.objs r) plan.numNewTokens pre.numNewLocalComputedTokens
              pre.numExternalComputedTokens = .ok n := hn
          rw [hn']
          exact hzero.2
        · refine hlooking.placeWaiting ?_ hload hok
          exact (hsel' skipped).trans hsel

theorem visitWaiting_tidy {goOn : Bool} (h : Tidy s₀ st) (hno : goOn = false → st.givesUpPinned c env = false)
    (hok : st.visitWaiting c env = .ok (goOn, st')) : Tidy s₀ st' := by
  unfold visitWaiting at hok
  dsimp only at hok
  split at hok
  · cases hok
  · rename_i r hr
    have hsel : selected st.sched (selectsSkipped c st.sched) = some r := hr
    simp only [Result.bind_eq_ok, Prod.exists] at hok
    obtain ⟨ready, s, hpromote, hok⟩ := hok
    have hready : Tidy s₀ { st with sched := s } ∧
        ∀ skipped, selected s skipped = selected st.sched skipped := by
      split at hpromote
      · rcases tryPromote_cases hpromote with ⟨-, rfl⟩ | ⟨-, -, rfl⟩ | ⟨-, -, _, _, _, _, _, rfl⟩
        · exact ⟨h, fun _ => rfl⟩
        · exact ⟨h.keep (steady_update rfl rfl rfl rfl) rfl rfl (fun _ => id) (.refl _), fun _ => rfl⟩
        · exact ⟨h.keep (steady_update rfl rfl rfl rfl) rfl rfl (fun _ => id) (.refl _), fun _ => rfl⟩
      · cases hpromote
        exact ⟨h, fun _ => rfl⟩
    split at hok
    · simp only [Result.bind_eq_ok, Result.pure_eq_ok, Prod.mk.injEq] at hok
      obtain ⟨st₁, hst, -, rfl⟩ := hok
      exact hready.1.skip hst
    · rename_i hgo
      refine tryWaiting_tidy hready.1 ((hready.2 _).trans hsel) (fun hfalse pre s' plan hpre hplan hzero => ?_) hok
      have hround : st.roundPlan c env = some (s'.objs r, pre, plan) := by
        unfold roundPlan
        rw [hsel]
        simp only [Option.bind_eq_bind, Option.bind_some]
        rw [hpromote]
        simp only [Except.toOption, Option.bind_some]
        rw [if_neg hgo, hpre]
        simp only [Option.bind_some]
        rw [hplan]
        rfl
      have hgives := hno hfalse
      unfold givesUpPinned at hgives
      rw [hround] at hgives
      dsimp only at hgives
      rw [hzero, Bool.true_and] at hgives
      exact hgives

def waitingGivesUpPinned (c : SchedulerConfig) (env : Outside) : Nat → Step → Bool
  | 0, _ => false
  | fuel + 1, st =>
    if (st.sched.waiting ≠ [] ∨ st.sched.skippedWaiting ≠ []) ∧ st.tokenBudget > 0 ∧
        st.sched.running.length ≠ c.maxNumRunningReqs then
      match st.visitWaiting c env with
      | .ok (true, st') => waitingGivesUpPinned c env fuel st'
      | .ok (false, _) => st.givesUpPinned c env
      | .error _ => false
    else false

theorem scheduleWaiting_tidy {fuel : Nat} (h : Tidy s₀ st) (hno : st.waitingGivesUpPinned c env fuel = false)
    (hok : st.scheduleWaiting c env fuel = .ok st') : Tidy s₀ st' := by
  induction fuel generalizing st with
  | zero =>
    cases hok
    exact h
  | succ fuel ih =>
    unfold scheduleWaiting at hok
    unfold waitingGivesUpPinned at hno
    split at hok
    · rename_i hroom
      rw [if_pos hroom] at hno
      simp only [Result.bind_eq_ok, Prod.exists] at hok
      obtain ⟨goOn, st₁, hvisit, hok⟩ := hok
      rw [hvisit] at hno
      cases goOn with
      | true => exact ih (visitWaiting_tidy h (fun hgo => by cases hgo) hvisit) hno hok
      | false =>
        cases hok
        exact visitWaiting_tidy h (fun _ => hno) hvisit
    · cases hok
      exact h

theorem recordLoras_tidy (h : Tidy s₀ st) (hok : st.recordLoras c = .ok st') : Tidy s₀ st' := by
  obtain ⟨loras, rfl⟩ := recordLoras_frame hok
  exact h.keep (.refl _) rfl rfl (fun _ => id) (.refl _)

end Step

namespace Scheduler

variable {c : SchedulerConfig} {env : Outside} {s s' : Scheduler} {o : SchedulerOutput}

/-- A call of `schedule()` gives up on a waiting request that a check has just added to the reference set of
one of its items. -/
def givesUpPinned (c : SchedulerConfig) (env : Outside) (s : Scheduler) : Bool :=
  Result.holds (do
    let st ← (Step.start c s).scheduleRunning c env (s.running.length + 1) 0
    st.recordLoras c) fun st =>
      decide (st.preemptedReqs = [] ∧ s.pauseState = .unpaused) &&
        st.waitingGivesUpPinned c env (st.sched.waiting.length + st.sched.skippedWaiting.length + 1)

theorem scheduleRequests_tidy {st : Step} (h : Step.Tidy s (Step.start c s)) (hno : s.givesUpPinned c env = false)
    (hok : Step.scheduleRequests c env s = .ok st) : Step.Tidy s st := by
  simp only [Step.scheduleRequests, Result.bind_eq_ok] at hok
  obtain ⟨st₁, hrunning, st₂, hloras, hok⟩ := hok
  have hrun : (Step.start c s).scheduleRunning c env (s.running.length + 1) 0 = .ok st₁ := hrunning
  have htidy : Step.Tidy s st₂ := Step.recordLoras_tidy (Step.scheduleRunning_tidy h hrun) hloras
  split at hok
  · rename_i hunpaused
    simp only [Result.bind_eq_ok, Result.pure_eq_ok] at hok
    obtain ⟨st₃, hwaiting, rfl⟩ := hok
    have hloop : st₂.waitingGivesUpPinned c env
        (st₂.sched.waiting.length + st₂.sched.skippedWaiting.length + 1) = false := by
      unfold givesUpPinned at hno
      rw [hrun, Result.ok_bind, hloras] at hno
      have hno' : (decide (st₂.preemptedReqs = [] ∧ s.pauseState = .unpaused) &&
        st₂.waitingGivesUpPinned c env
          (st₂.sched.waiting.length + st₂.sched.skippedWaiting.length + 1)) = false := hno
      rwa [decide_eq_true hunpaused, Bool.true_and] at hno'
    have hbooks : Step.SameBooks st₃ (st₃.requeueSkipped c) := Step.sameBooks_requeueSkipped
    obtain ⟨-, hqueued⟩ := hbooks
    refine (Step.scheduleWaiting_tidy htidy hloop hwaiting).keep ⟨rfl, fun _ => rfl, fun _ => rfl⟩ rfl rfl
      (fun x hx => hqueued ▸ hx) (.refl _)
  · cases hok
    exact htidy

theorem advanceRequest_unpins (s : Scheduler) (r : Ref) (n : Int) :
    Unpins s.encoderCacheManager (s.advanceRequest c r n).encoderCacheManager := by
  unfold advanceRequest
  dsimp only
  split
  · refine foldl_unpins (fun e i => ?_) _ s.encoderCacheManager
    split
    · exact .refl e
    · split
      · exact freeEncoderInput_unpins e _ i
      · exact .refl e
  · exact .refl _

structure Advances (s s' : Scheduler) : Prop where
  steady : Step.Steady s s'
  nextRef : s'.nextRef = s.nextRef
  running : s'.running = s.running
  unpins : Unpins s.encoderCacheManager s'.encoderCacheManager

theorem Advances.trans {s₁ : Scheduler} (h : Advances s s₁) (h' : Advances s₁ s') : Advances s s' :=
  ⟨h.steady.trans h'.steady, h'.nextRef.trans h.nextRef, h'.running.trans h.running, h.unpins.trans h'.unpins⟩

theorem advanceRequests_advances {o' : SchedulerOutput} {items : List (ReqId × Int)}
    (hok : advanceRequests c o items s = .ok (o', s')) : Advances s s' := by
  induction items generalizing s o with
  | nil =>
    cases hok
    exact ⟨.refl _, rfl, rfl, .refl _⟩
  | cons item items ih =>
    obtain ⟨reqId, n⟩ := item
    unfold advanceRequests at hok
    split at hok
    · cases hok
    · rename_i r _
      refine Advances.trans ⟨?_, ?_, ?_, advanceRequest_unpins s r n⟩ (ih hok)
      · unfold advanceRequest
        dsimp only
        split
        · exact Step.steady_update rfl rfl rfl rfl
        · exact Step.steady_update rfl rfl rfl rfl
      · unfold advanceRequest
        dsimp only
        split
        · rfl
        · rfl
      · unfold advanceRequest
        dsimp only
        split
        · rfl
        · rfl

theorem reservePlaceholders_advances {o' : SchedulerOutput} {ids : List ReqId}
    (hok : reservePlaceholders c o ids s = .ok (o', s')) : Advances s s' := by
  induction ids generalizing s o with
  | nil =>
    cases hok
    exact ⟨.refl _, rfl, rfl, .refl _⟩
  | cons reqId ids ih =>
    unfold reservePlaceholders at hok
    split at hok
    · cases hok
    · rename_i r _
      refine Advances.trans ⟨Step.steady_modify s ?_ ?_, rfl, rfl, .refl _⟩ (ih hok)
      · unfold addPlaceholders
        split <;> rfl
      · unfold addPlaceholders
        split <;> rfl

theorem updateAfterSchedule_advances {o' : SchedulerOutput} (hok : updateAfterSchedule c o s = .ok (o', s')) :
    Advances s s' := by
  simp only [updateAfterSchedule, Result.bind_eq_ok, Prod.exists] at hok
  obtain ⟨o₁, s₁, hadv, hok⟩ := hok
  have hfirst := advanceRequests_advances hadv
  have hcleared : Advances s { s₁ with finishedReqIds := [] } :=
    ⟨⟨hfirst.steady.requests, hfirst.steady.features, hfirst.steady.requestId⟩, hfirst.nextRef, hfirst.running,
      hfirst.unpins⟩
  split at hok
  · exact hcleared.trans (reservePlaceholders_advances hok)
  · cases hok
    exact hcleared

theorem start_tidy (hrun : ∀ r ∈ s.running, r < s.nextRef) (hqueued : ∀ r ∈ s.queued, r < s.nextRef)
    (ho : s.Owned s.running) : Step.Tidy s (Step.start c s) := by
  refine ⟨⟨rfl, fun _ => rfl, fun _ => rfl⟩, rfl, hrun, fun r hr => hqueued r ?_, ?_⟩
  · have hsame : (Step.start c s).queued = s.queued := Multiset.add_zero _
    exact hsame ▸ hr
  · exact ho.keep ⟨fun _ => rfl, fun _ => List.Subset.refl _⟩ (fun _ => id) (.refl _)

theorem schedule_owned (ho : s.Owned s.running) (hrun : ∀ r ∈ s.running, r < s.nextRef)
    (hqueued : ∀ r ∈ s.queued, r < s.nextRef) (hno : s.givesUpPinned c env = false)
    (hok : schedule c env s = .ok (o, s')) : s'.Owned s'.running := by
  simp only [schedule, Result.bind_eq_ok, Prod.exists] at hok
  obtain ⟨st, hst, o₁, s₁, hout, hok⟩ := hok
  have htidy := scheduleRequests_tidy (start_tidy hrun hqueued ho) hno hst
  obtain ⟨⟨kv, rfl⟩, -⟩ := Step.makeOutput_eq_ok hout
  have hadv := updateAfterSchedule_advances hok
  refine htidy.owned.keep ?_ ?_ ((getFreedMmHashes_unpins _).trans hadv.unpins)
  · refine Step.Steady.keepsItems ⟨?_, ?_, ?_⟩
    · exact hadv.steady.requests
    · exact hadv.steady.features
    · exact hadv.steady.requestId
  · intro r hr
    rw [hadv.running]
    exact hr

end Scheduler

end Vllm
