import Vllm.QueueLedger

namespace Vllm

namespace Ledger

structure Kept (l : Ledger) (q : Multiset Ref) : Prop extends l.Ok where
  bound : ∀ r ∈ q, r < l.nextRef

/-- Books that stay right, with queues that stay exact. -/
def Follows (l : Ledger) (q : Multiset Ref) (l' : Ledger) (q' : Multiset Ref) : Prop :=
  l'.Kept q' ∧ (l.Exact q → l'.Exact q')

variable {l : Ledger} {q : Multiset Ref} {r : Ref} {x : RequestStatus}

theorem Kept.refl (h : l.Kept q) : Follows l q l q := ⟨h, id⟩

theorem Follows.congr {l' m : Ledger} {q' p : Multiset Ref} (h : Follows l q l' q') (hl : m = l')
    (hq : p = q') : Follows l q m p := by
  subst hl hq
  exact h

theorem Kept.admitRequest (h : l.Kept q) (hr : r ∈ q) (hf : (l.status r).isFinished = false)
    (hst : l.status r ≠ .running) : Follows l q (l.admitRequest r) (q.erase r) :=
  ⟨⟨h.toOk.admitRequest ⟨h.bound r hr, hf⟩ hst, fun y hy => h.bound y (Multiset.mem_of_mem_erase hy)⟩,
    fun hq => hq.admitRequest hr⟩

theorem Kept.park_running (h : l.Kept q) (hr : r ∈ l.running) (hx : x ≠ .running)
    (hf : x.isFinished = false) : Follows l q (l.park r x) (r ::ₘ q) := by
  obtain ⟨hlt, hst⟩ := (h.running_iff r).mp hr
  refine ⟨⟨h.toOk.park (h.toOk.live hr) hx, fun y hy => ?_⟩, fun hq =>
    hq.park_running hlt hst hx hf⟩
  rcases Multiset.mem_cons.mp hy with rfl | hy
  · exact hlt
  · exact h.bound y hy

theorem Kept.park_queued (h : l.Kept q) (hr : r ∈ q) (hlive : (l.status r).isFinished = false)
    (hx : x ≠ .running) (hf : x.isFinished = false) : Follows l q (l.park r x) q :=
  ⟨⟨h.toOk.park ⟨h.bound r hr, hlive⟩ hx, h.bound⟩, fun hq => hq.park_queued hr hx hf⟩

theorem Ok.park_of_not_running (h : l.Ok) (hst : l.status r ≠ .running) :
    l.park r x = { l with status := Function.update l.status r x } := by
  have hmem : r ∉ l.running := fun hr => hst ((h.running_iff r).mp hr).2
  unfold Ledger.park
  rw [Multiset.erase_of_notMem hmem]

end Ledger

namespace Scheduler

def ledger (s : Scheduler) : Ledger where
  nextRef := s.nextRef
  requests := s.requests
  requestId r := (s.objs r).requestId
  status r := (s.objs r).status
  running := s.running

def queued (s : Scheduler) : Multiset Ref := s.waiting + s.skippedWaiting

theorem comp_update {α : Type} (g : Request → α) (objs : Ref → Request) (r : Ref) (q : Request) :
    (fun x => g (Function.update objs r q x)) = Function.update (fun x => g (objs x)) r (g q) :=
  Function.comp_update g objs r q

theorem ledger_modify (s : Scheduler) {r : Ref} {f : Request → Request}
    (hid : (f (s.objs r)).requestId = (s.objs r).requestId) :
    (s.modify r f).ledger =
      { s.ledger with status := Function.update s.ledger.status r (f (s.objs r)).status } := by
  unfold ledger modify
  rw [Ledger.mk.injEq]
  refine ⟨rfl, rfl, ?_, comp_update Request.status s.objs r _, rfl⟩
  dsimp only
  rw [comp_update Request.requestId, hid]
  exact Function.update_eq_self r _

theorem ledger_modify_same (s : Scheduler) {r : Ref} {f : Request → Request}
    (hid : (f (s.objs r)).requestId = (s.objs r).requestId)
    (hst : (f (s.objs r)).status = (s.objs r).status) : (s.modify r f).ledger = s.ledger := by
  rw [ledger_modify s hid, hst]
  have heq : Function.update s.ledger.status r (s.objs r).status = s.ledger.status :=
    Function.update_eq_self r _
  rw [heq]

end Scheduler

namespace Step

open Scheduler

variable {c : SchedulerConfig} {env : Outside} {st st' : Step}

def queued (st : Step) : Multiset Ref := st.sched.queued + st.stepSkippedWaiting

theorem popSelected_eq_ok {s s' : Scheduler} {skipped : Bool} {r : Ref}
    (h : popSelected c s skipped = .ok (r, s')) :
    selected s skipped = some r ∧ s.queued = r ::ₘ s'.queued ∧
      ∃ waiting skippedWaiting, s' = { s with waiting, skippedWaiting } := by
  unfold popSelected at h
  split at h
  · cases h
  · rename_i r' queue hpop
    cases h
    obtain ⟨hpeek, hperm⟩ := RequestQueue.popRequest_spec hpop
    refine ⟨hpeek, ?_, ?_⟩
    · cases skipped with
      | false =>
        have : (s.waiting : Multiset Ref) = r ::ₘ (queue : Multiset Ref) := Multiset.coe_eq_coe.mpr hperm
        show (s.waiting : Multiset Ref) + s.skippedWaiting = r ::ₘ ((queue : Multiset Ref) + s.skippedWaiting)
        rw [this, Multiset.cons_add]
      | true =>
        have : (s.skippedWaiting : Multiset Ref) = r ::ₘ (queue : Multiset Ref) :=
          Multiset.coe_eq_coe.mpr hperm
        show (s.waiting : Multiset Ref) + s.skippedWaiting = r ::ₘ ((s.waiting : Multiset Ref) + queue)
        rw [this, Multiset.add_cons]
    · cases skipped with
      | false => exact ⟨queue, s.skippedWaiting, rfl⟩
      | true => exact ⟨s.waiting, queue, rfl⟩

theorem mem_queued_of_selected {skipped : Bool} {r : Ref}
    (h : selected st.sched skipped = some r) : r ∈ st.queued := by
  have hmem : r ∈ st.sched.queued := by
    have := List.mem_of_mem_head? h
    cases skipped with
    | false => exact Multiset.mem_add.mpr (.inl this)
    | true => exact Multiset.mem_add.mpr (.inr this)
  exact Multiset.mem_add.mpr (.inl hmem)

def SameBooks (st st' : Step) : Prop :=
  st'.sched.ledger = st.sched.ledger ∧ st'.queued = st.queued

def KeepsBooks (st st' : Step) : Prop :=
  Ledger.Follows st.sched.ledger st.queued st'.sched.ledger st'.queued

theorem SameBooks.keepsBooks (h : SameBooks st st')
    (hk : st.sched.ledger.Kept st.queued) : KeepsBooks st st' :=
  hk.refl.congr h.1 h.2

theorem preemptRequest_books {s s' : Scheduler} {v : Ref} (h : preemptRequest c s v = .ok s') :
    s'.ledger = { s.ledger with status := Function.update s.ledger.status v .preempted } ∧
      s'.queued = v ::ₘ s.queued := by
  obtain ⟨-, rfl⟩ := preemptRequest_eq_ok h
  refine ⟨ledger_modify (f := markPreempted) s rfl, ?_⟩
  unfold Scheduler.queued
  dsimp only
  rw [Multiset.coe_eq_coe.mpr (RequestQueue.prependRequest_perm s.waiting v), ← Multiset.cons_coe,
    Multiset.cons_add]

theorem takeVictim_frame {st₁ : Step} {v : Ref} {i j : Nat} (hn : st.sched.running.Nodup)
    (h : st.takeVictim c i = .ok (v, j, st₁)) :
    v ∈ st.sched.running ∧ st₁.sched = { st.sched with running := st.sched.running.erase v } ∧
      st₁.stepSkippedWaiting = st.stepSkippedWaiting := by
  obtain ⟨hrun, hcase⟩ := takeVictim_cases hn h
  rcases hcase with ⟨-, -, -, rfl⟩ | ⟨-, -, -, hun⟩
  · exact ⟨hrun, rfl, rfl⟩
  · obtain ⟨n, -, rfl⟩ := unschedule_eq_ok hun
    exact ⟨hrun, rfl, rfl⟩

theorem keepsBooks_preempt {st₁ : Step} {v : Ref} {i j : Nat}
    (hk : st.sched.ledger.Kept st.queued) (hv : st.takeVictim c i = .ok (v, j, st₁))
    (hp : st₁.preempt c v = .ok st') : KeepsBooks st st' := by
  obtain ⟨hrun, hsched, haside⟩ := takeVictim_frame (Multiset.coe_nodup.mp hk.nodup) hv
  obtain ⟨s, hs, rfl⟩ := preempt_eq_ok hp
  obtain ⟨hledger, hqueued⟩ := preemptRequest_books hs
  have hkeep := hk.park_running (x := .preempted) (r := v) hrun (by decide) rfl
  unfold KeepsBooks
  show Ledger.Follows _ _ s.ledger (s.queued + st₁.stepSkippedWaiting)
  rw [hledger, hqueued, hsched, haside, Multiset.cons_add]
  exact hkeep

theorem sameBooks_scheduleEncoder {request : Request} {plan : EncoderPlan}
    (h : st.scheduleEncoder request plan = .ok st') : SameBooks st st' := by
  obtain ⟨e, inputs, budget, rfl⟩ := scheduleEncoder_frame h
  exact ⟨rfl, rfl⟩

theorem SameBooks.trans {st₁ : Step} (h : SameBooks st st₁) (h' : SameBooks st₁ st') :
    SameBooks st st' :=
  ⟨h'.1.trans h.1, h'.2.trans h.2⟩

theorem sameBooks_scheduleRunningRequest {r : Ref} {n : Int} {blocks : List (List BlockId)}
    {plan : EncoderPlan} (h : st.scheduleRunningRequest r n blocks plan = .ok st') :
    SameBooks st st' := by
  refine SameBooks.trans ?_ (sameBooks_scheduleEncoder h)
  exact ⟨ledger_modify_same (f := fun q => { q with specTokenIds := [] }) st.sched rfl rfl, rfl⟩

theorem sameBooks_skipSelected {skipped : Bool} (h : st.skipSelected c skipped = .ok st') :
    SameBooks st st' := by
  simp only [skipSelected, Result.bind_eq_ok, Prod.exists, Result.pure_eq_ok] at h
  obtain ⟨r, s, hpop, rfl⟩ := h
  obtain ⟨-, hqueued, waiting, skippedWaiting, rfl⟩ := popSelected_eq_ok hpop
  refine ⟨rfl, ?_⟩
  unfold Step.queued
  dsimp only
  rw [Multiset.coe_eq_coe.mpr (RequestQueue.prependRequest_perm _ r), ← Multiset.cons_coe,
    Multiset.add_cons, hqueued, Multiset.cons_add]

theorem sameBooks_requeueSkipped : SameBooks st (st.requeueSkipped c) := by
  refine ⟨rfl, ?_⟩
  show ((st.sched.waiting : Multiset Ref) +
    (RequestQueue.prependRequests c.policy st.sched.lt st.sched.skippedWaiting
      st.stepSkippedWaiting : Multiset Ref)) + (([] : List Ref) : Multiset Ref) =
      ((st.sched.waiting : Multiset Ref) + st.sched.skippedWaiting) + st.stepSkippedWaiting
  rw [Multiset.coe_eq_coe.mpr (RequestQueue.prependRequests_perm _ _), ← Multiset.coe_add,
    Multiset.coe_nil, Multiset.add_zero, Multiset.add_assoc,
    Multiset.add_comm (st.stepSkippedWaiting : Multiset Ref)]

theorem keepsBooks_promote {r : Ref} {skipped : Bool} {s : Scheduler}
    (hk : st.sched.ledger.Kept st.queued) (hsel : selected st.sched skipped = some r)
    (h : tryPromote c env st.sched r = .ok (true, s)) : KeepsBooks st { st with sched := s } := by
  have hpark : ∀ x : RequestStatus, (st.sched.objs r).status ≠ .running →
      (st.sched.objs r).isFinished = false → x ≠ .running → x.isFinished = false →
      s.ledger = { st.sched.ledger with status := Function.update st.sched.ledger.status r x } →
      s.queued = st.sched.queued → KeepsBooks st { st with sched := s } := by
    intro x hst hlive hx hf hledger hqueued
    unfold KeepsBooks
    show Ledger.Follows _ _ s.ledger (s.queued + st.stepSkippedWaiting)
    rw [hledger, hqueued, ← hk.toOk.park_of_not_running hst]
    exact hk.park_queued (mem_queued_of_selected hsel) hlive hx hf
  rcases tryPromote_cases h with ⟨h, -⟩ | ⟨-, hst, rfl⟩ | ⟨-, hst, a, b, kv, d, e, rfl⟩
  · cases h
  · refine hpark .waiting ?_ ?_ (by decide) rfl (ledger_modify st.sched rfl) rfl
    · rw [hst]
      decide
    · rw [Request.isFinished, hst]
      rfl
  · refine hpark (if (st.sched.objs r).numPreemptions ≠ 0 then .preempted else .waiting) ?_ ?_ ?_ ?_
      (ledger_modify (f := fun q => { q with
        numComputedTokens := a
        numCachedTokens := b
        status := if (st.sched.objs r).numPreemptions ≠ 0 then .preempted else .waiting })
        st.sched rfl) rfl
    · rw [hst]
      decide
    · rw [Request.isFinished, hst]
      rfl
    · split <;> decide
    · split <;> rfl

theorem keepsBooks_startLoad {skipped : Bool} {pre : ComputedPrefix}
    (hk : st.sched.ledger.Kept st.queued) (hexact : st.sched.ledger.Exact st.queued)
    (h : st.startLoad c skipped pre = .ok st') : KeepsBooks st st' := by
  simp only [startLoad, Result.bind_eq_ok, Prod.exists, Result.pure_eq_ok] at h
  obtain ⟨r, s, hpop, rfl⟩ := h
  obtain ⟨hsel, hqueued, waiting, skippedWaiting, rfl⟩ := popSelected_eq_ok hpop
  have hmem := mem_queued_of_selected hsel
  obtain ⟨hlive, hst⟩ := (hexact.mem_iff r).mp hmem
  have hkeep := hk.park_queued (x := .waitingForRemoteKvs) hmem hlive.2 (by decide) rfl
  rw [hk.toOk.park_of_not_running hst] at hkeep
  refine hkeep.congr ?_ ?_
  · refine (ledger_modify_same _ rfl rfl).trans ?_
    exact ledger_modify (f := fun q => { q with status := .waitingForRemoteKvs }) st.sched rfl
  · unfold Step.queued
    dsimp only
    rw [Multiset.coe_eq_coe.mpr (RequestQueue.prependRequest_perm _ r), ← Multiset.cons_coe,
      Multiset.add_cons, hqueued, Multiset.cons_add]
    rfl

def started (pre : ComputedPrefix) (q : Request) : Request :=
  { q with
    status := .running
    numComputedTokens := pre.numComputedTokens
    numCachedTokens := if q.numCachedTokens < 0 then pre.numComputedTokens else q.numCachedTokens }

theorem admitRequest_eq_ok {skipped : Bool} {n : Int} {pre : ComputedPrefix} {plan : EncoderPlan}
    (h : st.admitRequest c skipped n pre plan = .ok st') :
    ∃ r s new resumed loras,
      popSelected c st.sched skipped = .ok (r, s) ∧
      ((s.objs r).status = .waiting ∧ new = st.scheduledNewReqs ++ [r] ∧
          resumed = st.scheduledResumedReqs ∨
        (s.objs r).status = .preempted ∧ new = st.scheduledNewReqs ∧
          resumed = st.scheduledResumedReqs ++ [r]) ∧
      ({ st with
        scheduledNewReqs := new
        scheduledResumedReqs := resumed
        scheduledLoras := loras
        reqToNewBlocks := st.reqToNewBlocks.set (s.objs r).requestId
          (s.kvCacheManager.getBlockIds (s.objs r).requestId)
        numScheduledTokens := st.numScheduledTokens.set (s.objs r).requestId n
        tokenBudget := st.tokenBudget - n
        sched := ({ s with running := s.running ++ [r] } : Scheduler).modify r (started pre) } :
          Step).scheduleEncoder (s.objs r) plan = .ok st' := by
  simp only [admitRequest, Result.bind_eq_ok, Prod.exists] at h
  obtain ⟨r, s, hpop, st₁, hst, h⟩ := h
  split at hst
  · rename_i hw
    cases hst
    exact ⟨r, s, _, _, _, hpop, .inl ⟨hw, rfl, rfl⟩, h⟩
  · rename_i hp
    cases hst
    exact ⟨r, s, _, _, _, hpop, .inr ⟨hp, rfl, rfl⟩, h⟩
  · cases hst

theorem keepsBooks_admitRequest {skipped : Bool} {n : Int} {pre : ComputedPrefix} {plan : EncoderPlan}
    (hk : st.sched.ledger.Kept st.queued) (h : st.admitRequest c skipped n pre plan = .ok st') :
    KeepsBooks st st' := by
  obtain ⟨r, s, new, resumed, loras, hpop, hst, h⟩ := admitRequest_eq_ok h
  obtain ⟨hsel, hqueued, waiting, skippedWaiting, rfl⟩ := popSelected_eq_ok hpop
  have hmem := mem_queued_of_selected hsel
  have hstatus : st.sched.ledger.status r = .waiting ∨ st.sched.ledger.status r = .preempted :=
    hst.imp (fun h => h.1) fun h => h.1
  have hlive : (st.sched.ledger.status r).isFinished = false := by
    rcases hstatus with hst | hst <;> rw [hst] <;> rfl
  have hnot : st.sched.ledger.status r ≠ .running := by
    rcases hstatus with hst | hst <;> rw [hst] <;> decide
  have hkeep := hk.admitRequest hmem hlive hnot
  obtain ⟨hledger, hq⟩ := sameBooks_scheduleEncoder h
  refine hkeep.congr (hledger.trans ?_) (hq.trans ?_)
  · refine (ledger_modify (f := started pre) _ rfl).trans ?_
    have hrunning : ((st.sched.running ++ [r] : List Ref) : Multiset Ref) =
        r ::ₘ (st.sched.running : Multiset Ref) :=
      Multiset.coe_eq_coe.mpr (List.perm_append_singleton r _)
    unfold Ledger.admitRequest
    rw [Ledger.mk.injEq]
    exact ⟨rfl, rfl, rfl, rfl, hrunning⟩
  · unfold Step.queued
    rw [hqueued, Multiset.cons_add, Multiset.erase_cons_head]
    rfl

theorem recordLoras_frame (h : st.recordLoras c = .ok st') :
    ∃ loras, st' = { st with scheduledLoras := loras } := by
  unfold recordLoras at h
  split at h
  · cases h
    exact ⟨st.scheduledLoras, rfl⟩
  · simp only [Result.bind_eq_ok, Result.pure_eq_ok] at h
    obtain ⟨-, -, rfl⟩ := h
    exact ⟨_, rfl⟩

theorem Move.keepsBooks (hm : Move c env st st') (hk : st.sched.ledger.Kept st.queued)
    (hload : c.hasConnector = true → st.sched.ledger.Exact st.queued) : KeepsBooks st st' := by
  cases hm with
  | encoder => exact hk.refl
  | noSlots => exact hk.refl
  | preempt _ _ hv hp => exact keepsBooks_preempt hk hv hp
  | run _ _ _ _ _ _ _ h =>
    exact (sameBooks_scheduleRunningRequest h).keepsBooks hk
  | loras h =>
    obtain ⟨loras, rfl⟩ := recordLoras_frame h
    exact hk.refl
  | promote hsel _ h => exact keepsBooks_promote hk hsel h
  | skip h => exact (sameBooks_skipSelected h).keepsBooks hk
  | computed h =>
    rcases computedPrefix_frame h with rfl | ⟨-, ext, rfl⟩
    · exact hk.refl
    · exact hk.refl.congr (ledger_modify_same st.sched rfl rfl) rfl
  | noRoom =>
    split
    · exact hk.refl
    · exact hk.refl
  | load _ hconn _ h =>
    exact (keepsBooks_startLoad (by exact hk) (by exact hload hconn) h : KeepsBooks _ _)
  | admitRequest _ _ _ _ _ _ h =>
    exact (keepsBooks_admitRequest (by exact hk) h : KeepsBooks _ _)
  | requeue => exact sameBooks_requeueSkipped.keepsBooks hk

theorem Moves.keepsBooks (hm : Moves c env st st') (hk : st.sched.ledger.Kept st.queued)
    (hload : c.hasConnector = true → st.sched.ledger.Exact st.queued) : KeepsBooks st st' := by
  induction hm with
  | refl => exact hk.refl
  | tail _ hm ih =>
    have hmove := hm.keepsBooks ih.1 fun hconn => ih.2 (hload hconn)
    exact ⟨hmove.1, fun hq => hmove.2 (ih.2 hq)⟩

theorem scheduleRequests_books {s : Scheduler} (hk : s.ledger.Kept s.queued)
    (hload : c.hasConnector = true → s.ledger.Exact s.queued)
    (h : scheduleRequests c env s = .ok st) :
    Ledger.Follows s.ledger s.queued st.sched.ledger st.queued := by
  have hstart : (start c s).queued = s.queued := Multiset.add_zero _
  have hmoves := scheduleRequests_moves (Multiset.coe_nodup.mp hk.nodup) h
  have hkeeps := hmoves.keepsBooks (by rw [hstart]; exact hk) (by rw [hstart]; exact hload)
  unfold KeepsBooks at hkeeps
  rw [hstart] at hkeeps
  exact hkeeps

theorem allocateOrPreempt_aside {r : Ref} {n : Int} {fuel j j' : Nat}
    {blocks : Option (List (List BlockId))}
    (h : allocateOrPreempt c r n fuel j st = .ok (blocks, j', st')) :
    st'.stepSkippedWaiting = st.stepSkippedWaiting := by
  induction fuel generalizing j st with
  | zero => cases h
  | succ fuel ih =>
    simp only [allocateOrPreempt, Result.bind_eq_ok, Prod.exists] at h
    obtain ⟨newBlocks, kv, -, h⟩ := h
    cases newBlocks with
    | some b =>
      cases h
      rfl
    | none =>
      simp only [Result.bind_eq_ok, Prod.exists] at h
      obtain ⟨v, j₁, st₁, hvictim, st₂, hpre, h⟩ := h
      have haside := (takeVictim_takes hvictim).aside
      obtain ⟨s, -, rfl⟩ := preempt_eq_ok hpre
      split at h
      · cases h
        exact haside
      · exact (ih h).trans haside

theorem visitRunning_aside {r : Ref} {j j' : Nat} {goOn : Bool}
    (h : st.visitRunning c env j r = .ok (goOn, j', st')) :
    st'.stepSkippedWaiting = st.stepSkippedWaiting := by
  unfold visitRunning at h
  dsimp only at h
  split at h
  · cases h
    rfl
  · simp only [Result.bind_eq_ok] at h
    obtain ⟨plan, -, n, -, h⟩ := h
    split at h
    · cases h
      rfl
    · simp only [Result.bind_eq_ok, Prod.exists] at h
      obtain ⟨newBlocks, j₁, st₁, halloc, h⟩ := h
      have haside := allocateOrPreempt_aside halloc
      cases newBlocks with
      | none =>
        cases h
        exact haside
      | some blocks =>
        simp only [Result.bind_eq_ok, Result.pure_eq_ok, Prod.mk.injEq] at h
        obtain ⟨st₂, hrun, -, -, rfl⟩ := h
        obtain ⟨e, inputs, budget, rfl⟩ := scheduleEncoder_frame hrun
        exact haside

theorem scheduleRunning_aside {fuel j : Nat} (h : st.scheduleRunning c env fuel j = .ok st') :
    st'.stepSkippedWaiting = st.stepSkippedWaiting := by
  induction fuel generalizing j st with
  | zero =>
    cases h
    rfl
  | succ fuel ih =>
    unfold scheduleRunning at h
    split at h
    · split at h
      · cases h
        rfl
      · simp only [Result.bind_eq_ok, Prod.exists] at h
        obtain ⟨goOn, j₁, st₁, hvisit, h⟩ := h
        have hvisit := visitRunning_aside hvisit
        split at h
        · exact (ih h).trans hvisit
        · cases h
          exact hvisit
    · cases h
      rfl

theorem scheduleRequests_aside {s : Scheduler} (h : scheduleRequests c env s = .ok st) :
    st.stepSkippedWaiting = [] := by
  simp only [scheduleRequests, Result.bind_eq_ok] at h
  obtain ⟨st₁, hrunning, st₂, hloras, h⟩ := h
  have haside := scheduleRunning_aside hrunning
  have hloras := recordLoras_frame hloras
  split at h
  · simp only [Result.bind_eq_ok, Result.pure_eq_ok] at h
    obtain ⟨st₃, -, rfl⟩ := h
    rfl
  · cases h
    obtain ⟨loras, rfl⟩ := hloras
    exact haside

theorem makeOutput_eq_ok {o : SchedulerOutput} {s : Scheduler}
    (h : st.makeOutput c = .ok (o, s)) :
    (∃ kv, s = { st.sched with
        kvCacheManager := kv
        prevStepScheduledReqIds := st.numScheduledTokens.keys
        encoderCacheManager := st.sched.encoderCacheManager.getFreedMmHashes.2 }) ∧
      o.numScheduledTokens = st.numScheduledTokens ∧
      o.scheduledSpecDecodeTokens = st.scheduledSpecDecodeTokens ∧
      o.scheduledEncoderInputs = st.scheduledEncoderInputs ∧
      o.freeEncoderMmHashes = st.sched.encoderCacheManager.getFreedMmHashes.1 := by
  have hcommon : ∃ kv, (commonPrefixBlocks c st.sched).2 = st.sched.withKv kv := by
    unfold commonPrefixBlocks
    split
    · exact ⟨st.sched.kvCacheManager, rfl⟩
    · exact ⟨_, rfl⟩
  have hzero : ∀ s : Scheduler, ∃ kv, (takeBlocksToZero c s).2 = s.withKv kv := by
    intro s
    unfold takeBlocksToZero
    split
    · exact ⟨_, rfl⟩
    · exact ⟨s.kvCacheManager, rfl⟩
  simp only [makeOutput, Result.bind_eq_ok, Result.pure_eq_ok, Prod.mk.injEq] at h
  obtain ⟨-, -, newReqs, -, cachedReqs, -, rfl, rfl⟩ := h
  obtain ⟨kv, hkv⟩ := hcommon
  obtain ⟨kv', hkv'⟩ := hzero { (commonPrefixBlocks c st.sched).2 with
    prevStepScheduledReqIds := st.numScheduledTokens.keys }
  rw [hkv', hkv]
  exact ⟨⟨kv', rfl⟩, rfl, rfl, rfl, rfl⟩

end Step

namespace Scheduler

variable {c : SchedulerConfig} {env : Outside} {s s' : Scheduler}

theorem advanceRequest_books (s : Scheduler) (r : Ref) (n : Int) :
    (s.advanceRequest c r n).ledger = s.ledger ∧ (s.advanceRequest c r n).queued = s.queued := by
  unfold advanceRequest
  dsimp only
  split
  · exact ⟨ledger_modify_same s rfl rfl, rfl⟩
  · exact ⟨ledger_modify_same s rfl rfl, rfl⟩

theorem advanceRequests_books {o o' : SchedulerOutput} {items : List (ReqId × Int)}
    (h : advanceRequests c o items s = .ok (o', s')) :
    s'.ledger = s.ledger ∧ s'.queued = s.queued := by
  induction items generalizing s o with
  | nil =>
    cases h
    exact ⟨rfl, rfl⟩
  | cons item items ih =>
    obtain ⟨reqId, n⟩ := item
    unfold advanceRequests at h
    split at h
    · cases h
    · rename_i r hr
      obtain ⟨hledger, hqueued⟩ := ih h
      obtain ⟨hledger', hqueued'⟩ := advanceRequest_books (c := c) s r n
      exact ⟨hledger.trans hledger', hqueued.trans hqueued'⟩

theorem reservePlaceholders_books {o o' : SchedulerOutput} {reqIds : List ReqId}
    (h : reservePlaceholders c o reqIds s = .ok (o', s')) :
    s'.ledger = s.ledger ∧ s'.queued = s.queued := by
  induction reqIds generalizing s o with
  | nil =>
    cases h
    exact ⟨rfl, rfl⟩
  | cons reqId reqIds ih =>
    unfold reservePlaceholders at h
    split at h
    · cases h
    · rename_i r hr
      obtain ⟨hledger, hqueued⟩ := ih h
      refine ⟨hledger.trans (ledger_modify_same s ?_ ?_), hqueued⟩
      · unfold addPlaceholders
        split <;> rfl
      · unfold addPlaceholders
        split <;> rfl

theorem updateAfterSchedule_books {o o' : SchedulerOutput}
    (h : updateAfterSchedule c o s = .ok (o', s')) :
    s'.ledger = s.ledger ∧ s'.queued = s.queued := by
  simp only [updateAfterSchedule, Result.bind_eq_ok, Prod.exists] at h
  obtain ⟨o₁, s₁, hadv, h⟩ := h
  obtain ⟨hledger, hqueued⟩ := advanceRequests_books hadv
  split at h
  · obtain ⟨hledger', hqueued'⟩ := reservePlaceholders_books h
    exact ⟨hledger'.trans hledger, hqueued'.trans hqueued⟩
  · cases h
    exact ⟨hledger, hqueued⟩

theorem schedule_books {o : SchedulerOutput} (hk : s.ledger.Kept s.queued)
    (hload : c.hasConnector = true → s.ledger.Exact s.queued)
    (h : schedule c env s = .ok (o, s')) :
    Ledger.Follows s.ledger s.queued s'.ledger s'.queued := by
  simp only [schedule, Result.bind_eq_ok, Prod.exists] at h
  obtain ⟨st, hst, o₁, s₁, hout, h⟩ := h
  have hbooks := Step.scheduleRequests_books hk hload hst
  have haside := Step.scheduleRequests_aside hst
  obtain ⟨⟨kv, rfl⟩, -⟩ := Step.makeOutput_eq_ok hout
  obtain ⟨hledger, hqueued⟩ := updateAfterSchedule_books h
  refine hbooks.congr hledger (hqueued.trans ?_)
  unfold Step.queued
  rw [haside]
  exact (Multiset.add_zero _).symm

end Scheduler

end Vllm
