import Vllm.QueueSchedule
import Vllm.UpdateMoves

namespace Vllm

open Scheduler

variable {c : SchedulerConfig} {env : Outside}

theorem filter_notMem_insert (l S : List Ref) (r : Ref) :
    l.filter (· ∉ S.insert r) = (l.filter (· ∉ S)).filter (· ≠ r) := by
  rw [List.filter_filter]
  apply List.filter_congr
  intro x _
  simp [List.mem_insert_iff]

theorem filter_insert_eq_erase {l S : List Ref} {r : Ref} (h : (l.filter (· ∉ S)).Nodup) :
    l.filter (· ∉ S.insert r) = (l.filter (· ∉ S)).erase r := by
  rw [filter_notMem_insert, h.erase_eq_filter]
  apply List.filter_congr
  intro x _
  by_cases hx : x = r <;> simp [hx]

theorem removeAll_eq_filter {l items : List Ref} (hl : l.Nodup) :
    removeAll l items = l.filter (· ∉ items) := by
  unfold removeAll
  split
  · simp
  · rename_i item
    rw [hl.erase_eq_filter]
    apply List.filter_congr
    intro x _
    by_cases hx : x = item <;> simp [hx]
  · rfl

namespace Scheduler.UpdateState

def ledger (u : UpdateState) : Ledger :=
  { u.sched.ledger with
    running := (u.sched.running.filter (· ∉ u.stoppedRunningReqs) : List Ref) }

def queued (u : UpdateState) : Multiset Ref :=
  (u.sched.waiting.filter (· ∉ u.stoppedPreemptedReqs) : List Ref) + u.sched.skippedWaiting

variable {u : UpdateState}

theorem dequeueStopped_ledger (hn : u.sched.running.Nodup) :
    (dequeueStopped c u).ledger = u.ledger := by
  unfold Scheduler.ledger UpdateState.ledger dequeueStopped
  dsimp only
  rw [removeAll_eq_filter hn]
  rfl

theorem dequeueStopped_queued : (dequeueStopped c u).queued = u.queued := by
  unfold Scheduler.queued UpdateState.queued dequeueStopped
  dsimp only
  split
  · rename_i hnil
    simp [hnil]
  · rw [Multiset.coe_eq_coe.mpr (RequestQueue.removeRequests_perm _ _)]

end Scheduler.UpdateState

namespace Scheduler

variable {s s' : Scheduler} {u u' : UpdateState} {o : SchedulerOutput} {m : ModelRunnerOutput}
  {reqId : ReqId} {r : Ref}

def hasQueuedUpdate (q : Request) : Bool :=
  q.resumable &&
    match q.streamingQueue with
    | some (some _ :: _) => true
    | _ => false

/-- A request that is not running when it stops is in `waiting`, and does not go on at once. -/
def StopsInWaiting (c : SchedulerConfig) (s : Scheduler) (m : ModelRunnerOutput) (reqId : ReqId)
    (r : Ref) : Prop :=
  (s.objs r).status ≠ .running →
    stops c (s.objs r) (m.sampledTokenIds reqId) (m.hasPoolerOutput reqId) = true →
    r ∈ s.waiting ∧ hasQueuedUpdate (s.objs r) = false

theorem ledger_stopped {q : Request} (hk : u.ledger.Ok) (hn : u.sched.running.Nodup)
    (hid : q.requestId = (u.sched.objs r).requestId)
    (hobjs : u'.sched.objs = Function.update u.sched.objs r q)
    (hnext : u'.sched.nextRef = u.sched.nextRef) (hrun : u'.sched.running = u.sched.running)
    (hsets : ((u.sched.objs r).status = .running ∧
        u'.stoppedRunningReqs = u.stoppedRunningReqs.insert r) ∨
      ((u.sched.objs r).status ≠ .running ∧ u'.stoppedRunningReqs = u.stoppedRunningReqs)) :
    u'.ledger = { u.ledger.park r q.status with requests := u'.sched.requests } := by
  have hrunning : ((u'.sched.running.filter (· ∉ u'.stoppedRunningReqs) : List Ref) : Multiset Ref) =
      u.ledger.running.erase r := by
    rcases hsets with ⟨-, hset⟩ | ⟨hst, hset⟩
    · rw [hrun, hset, filter_insert_eq_erase (hn.filter _)]
      rfl
    · have hmem : r ∉ u.ledger.running := fun h => hst ((hk.running_iff r).mp h).2
      rw [Multiset.erase_of_notMem hmem, hrun, hset]
      rfl
  unfold UpdateState.ledger Scheduler.ledger Ledger.park
  rw [Ledger.mk.injEq, hrunning, hobjs]
  refine ⟨hnext, rfl, ?_, comp_update Request.status u.sched.objs r q, rfl⟩
  dsimp only
  rw [comp_update Request.requestId, hid]
  exact Function.update_eq_self r _

theorem park_forget_ok {l : Ledger} {x : RequestStatus} (hl : l.Ok) (hr : l.Live r)
    (hx : x.isFinished = true) : ((l.park r x).forget (l.requestId r)).Ok := by
  have hne : x ≠ .running := by
    intro h
    rw [h] at hx
    cases hx
  refine (hl.park hr hne).forget fun r' hr' => ?_
  have hreg := hl.registered r hr
  have heq : r' = r := Option.some.inj (hr'.symm.trans hreg)
  subst heq
  show ((Function.update l.status r' x) r').isFinished = true
  rw [Function.update_self]
  exact hx

theorem stopped_ok {l l' : Ledger} {x : RequestStatus} (hl : l.Ok) (hr : l.Live r)
    (hx : x ≠ .running)
    (hl' : l' = l.park r x ∨ (x.isFinished = true ∧ l' = (l.park r x).forget (l.requestId r))) :
    l'.Ok ∧ l'.nextRef = l.nextRef ∧ ∀ q, (l.park r x).Exact q → l'.Exact q := by
  rcases hl' with rfl | ⟨hfin, rfl⟩
  · exact ⟨hl.park hr hx, rfl, fun q hq => hq⟩
  · exact ⟨park_forget_ok hl hr hfin, rfl, fun q hq => hq.forget _⟩

theorem ne_running_of_finished {x : RequestStatus} (h : x.isFinished = true) : x ≠ .running := by
  intro hx
  rw [hx] at h
  cases h

theorem books_of_running_stop {l l' : Ledger} {q q' : Multiset Ref} {x : RequestStatus}
    (hk : l.Kept q) (hr : l.Live r) (hst : l.status r = .running)
    (hl' : l' = l.park r x ∨ (x.isFinished = true ∧ l' = (l.park r x).forget (l.requestId r)))
    (hq' : (x.isFinished = true ∧ q' = q) ∨
      (x.isFinished = false ∧ x ≠ .running ∧ q' = r ::ₘ q)) :
    l'.Kept q' ∧ (l.Exact q → l'.Exact q') := by
  rcases hq' with ⟨hfin, rfl⟩ | ⟨hfin, hx, rfl⟩
  · obtain ⟨hok, hnext, hexact⟩ := stopped_ok hk.toOk hr (ne_running_of_finished hfin) hl'
    refine ⟨⟨hok, fun y hy => hnext ▸ hk.bound y hy⟩, fun hq => hexact _ ?_⟩
    have hmem : r ∉ q' := fun h => ((hq.mem_iff r).mp h).2 hst
    have := hq.park_finished (r := r) hfin
    rwa [Multiset.erase_of_notMem hmem] at this
  · obtain ⟨hok, hnext, hexact⟩ := stopped_ok hk.toOk hr hx hl'
    refine ⟨⟨hok, fun y hy => ?_⟩, fun hq => hexact _ (hq.park_running hr.1 hst hx hfin)⟩
    rw [hnext]
    rcases Multiset.mem_cons.mp hy with rfl | hy
    · exact hr.1
    · exact hk.bound y hy

theorem books_of_queued_stop {l l' : Ledger} {a b w : Multiset Ref} {x : RequestStatus}
    (hk : l.Kept (a + b)) (hr : l.Live r) (hx : x ≠ .running)
    (hl' : l' = l.park r x ∨ (x.isFinished = true ∧ l' = (l.park r x).forget (l.requestId r)))
    (hq' : w = a.filter (· ≠ r) + b ∨
      (x.isFinished = false ∧ w = a.filter (· ≠ r) + (r ::ₘ b))) :
    l'.Kept w ∧ (l.Exact (a + b) → r ∈ a →
      (x.isFinished = false → w = a.filter (· ≠ r) + (r ::ₘ b)) → l'.Exact w) := by
  obtain ⟨hok, hnext, hexact⟩ := stopped_ok hk.toOk hr hx hl'
  have herase : (a + b).Nodup → r ∈ a → a.filter (· ≠ r) + b = (a + b).erase r := by
    intro hnodup hra
    rw [Multiset.erase_add_left_pos b hra,
      (Multiset.nodup_of_le (Multiset.le_add_right a b) hnodup).erase_eq_filter]
  refine ⟨⟨hok, fun y hy => ?_⟩, fun hq hra hgo => hexact _ ?_⟩
  · rw [hnext]
    have hbound : ∀ y, y ∈ a.filter (· ≠ r) + b → y < l.nextRef := by
      intro y hy
      rcases Multiset.mem_add.mp hy with hy | hy
      · exact hk.bound y (Multiset.mem_add.mpr (.inl (Multiset.mem_of_mem_filter hy)))
      · exact hk.bound y (Multiset.mem_add.mpr (.inr hy))
    rcases hq' with rfl | ⟨-, rfl⟩
    · exact hbound y hy
    · rw [Multiset.add_cons] at hy
      rcases Multiset.mem_cons.mp hy with rfl | hy
      · exact hr.1
      · exact hbound y hy
  · cases hfin : x.isFinished with
    | true =>
      have hq'' := hq'.resolve_right fun h => by
        rw [hfin] at h
        cases h.1
      rw [hq'', herase hq.nodup hra]
      exact hq.park_finished hfin
    | false =>
      have hmem : r ∈ a + b := Multiset.mem_add.mpr (.inl hra)
      rw [hgo hfin, Multiset.add_cons, herase hq.nodup hra, Multiset.cons_erase hmem]
      exact hq.park_queued hmem hx hfin

/-- Where a request that stops with the status `x` goes: it is finished, goes on at once with the update that
is queued, or waits for its next input. -/
inductive Leaves (s s' : Scheduler) (r : Ref) (queuedUpdate : Bool) : RequestStatus → Prop
  | finished {x : RequestStatus} : x.isFinished = true → s'.waiting = s.waiting →
      s'.skippedWaiting = s.skippedWaiting → Leaves s s' r queuedUpdate x
  | goesOn : queuedUpdate = true → s'.waiting.Perm (r :: s.waiting) → s'.skippedWaiting = s.skippedWaiting →
      Leaves s s' r queuedUpdate .waiting
  | waits : s'.waiting = s.waiting → s'.skippedWaiting.Perm (r :: s.skippedWaiting) →
      Leaves s s' r queuedUpdate .waitingForStreamingReq

section Leaves

variable {queuedUpdate : Bool} {x : RequestStatus}

theorem Leaves.ne_running (h : Leaves s s' r queuedUpdate x) : x ≠ .running := by
  cases h with
  | finished hfin => exact ne_running_of_finished hfin
  | goesOn => decide
  | waits => decide

theorem Leaves.congr {s₁ : Scheduler} (h : Leaves s s' r queuedUpdate x) (hw : s₁.waiting = s.waiting)
    (hsk : s₁.skippedWaiting = s.skippedWaiting) : Leaves s₁ s' r queuedUpdate x := by
  cases h with
  | finished hfin hw' hsk' => exact .finished hfin (hw'.trans hw.symm) (hsk'.trans hsk.symm)
  | goesOn hqueued hw' hsk' => exact .goesOn hqueued (hw ▸ hw') (hsk'.trans hsk.symm)
  | waits hw' hsk' => exact .waits (hw'.trans hw.symm) (hsk ▸ hsk')

theorem Leaves.queued_of_running (h : Leaves u.sched u'.sched r queuedUpdate x) (hSP : r ∉ u.stoppedPreemptedReqs)
    (hSP' : u'.stoppedPreemptedReqs = u.stoppedPreemptedReqs) :
    (x.isFinished = true ∧ u'.queued = u.queued) ∨
      (x.isFinished = false ∧ x ≠ .running ∧ u'.queued = r ::ₘ u.queued) := by
  unfold UpdateState.queued
  rw [hSP']
  cases h with
  | finished hfin hw hsk =>
    rw [hw, hsk]
    exact .inl ⟨hfin, rfl⟩
  | goesOn _ hw hsk =>
    refine .inr ⟨rfl, by decide, ?_⟩
    rw [hsk, Multiset.coe_eq_coe.mpr (hw.filter _), List.filter_cons_of_pos (by simpa using hSP),
      ← Multiset.cons_coe, Multiset.cons_add]
  | waits hw hsk =>
    refine .inr ⟨rfl, by decide, ?_⟩
    rw [hw, Multiset.coe_eq_coe.mpr hsk, ← Multiset.cons_coe, Multiset.add_cons]

/-- A request that was preempted leaves `waiting` again also where it goes on at once. -/
theorem Leaves.queued_of_preempted (h : Leaves u.sched u'.sched r queuedUpdate x)
    (hSP' : u'.stoppedPreemptedReqs = u.stoppedPreemptedReqs.insert r) {a : Multiset Ref}
    (ha : a = (u.sched.waiting.filter (· ∉ u.stoppedPreemptedReqs) : List Ref)) :
    (u'.queued = a.filter (· ≠ r) + u.sched.skippedWaiting ∧ (queuedUpdate = false → x.isFinished = true)) ∨
      (x.isFinished = false ∧ u'.queued = a.filter (· ≠ r) + (r ::ₘ (u.sched.skippedWaiting : Multiset Ref))) := by
  have hstays : a.filter (· ≠ r) = (u.sched.waiting.filter (· ∉ u.stoppedPreemptedReqs.insert r) : List Ref) := by
    rw [ha, Multiset.filter_coe, ← filter_notMem_insert]
  unfold UpdateState.queued
  rw [hSP', hstays]
  cases h with
  | finished hfin hw hsk =>
    rw [hw, hsk]
    exact .inl ⟨rfl, fun _ => hfin⟩
  | goesOn hqueued hw hsk =>
    refine .inl ⟨?_, fun hnone => ?_⟩
    · rw [hsk, Multiset.coe_eq_coe.mpr (hw.filter _), List.filter_cons_of_neg (by simp)]
    · rw [hqueued] at hnone
      cases hnone
  | waits hw hsk =>
    rw [hw, Multiset.coe_eq_coe.mpr hsk, ← Multiset.cons_coe]
    exact .inr ⟨rfl, rfl⟩

theorem Settled.leaves {q : Request} (h : Settled c env s r s') (hq : s.objs r = q) (hfin : q.isFinished = true) :
    ∃ q', s'.objs = Function.update s.objs r q' ∧ q'.requestId = q.requestId ∧ s'.nextRef = s.nextRef ∧
      s'.running = s.running ∧ Leaves s s' r (hasQueuedUpdate q) q'.status ∧
      (s'.requests = s.requests ∨ q'.status.isFinished = true ∧ s'.requests = s.requests.erase q.requestId) := by
  subst hq
  obtain ⟨q', hobjs, hid, hnext, hrun, hwhere⟩ := h.cases hfin
  refine ⟨q', hobjs, hid, hnext, hrun, ?_⟩
  rcases hwhere with ⟨hf, hw, hsk, hreq⟩ | ⟨hx, hres, ⟨update, queue, hupd⟩, hw, hsk, hreq⟩ | ⟨hx, hw, hsk, hreq⟩
  · exact ⟨.finished hf hw hsk, hreq.imp id fun hreq => ⟨hf, hreq⟩⟩
  · rw [hx]
    refine ⟨.goesOn ?_ hw hsk, .inl hreq⟩
    rw [hasQueuedUpdate, hres, hupd]
    rfl
  · rw [hx]
    exact ⟨.waits hw hsk, .inl hreq⟩

end Leaves

theorem updateRequest_goesOn {q : Request} {kv : KVCacheManager}
    (hsched : u'.sched = { u.sched with objs := Function.update u.sched.objs r q, kvCacheManager := kv })
    (hid : q.requestId = (u.sched.objs r).requestId) (hst : q.status = (u.sched.objs r).status)
    (hSR : u'.stoppedRunningReqs = u.stoppedRunningReqs) (hSP : u'.stoppedPreemptedReqs = u.stoppedPreemptedReqs) :
    u'.ledger = u.ledger ∧ u'.queued = u.queued := by
  unfold UpdateState.ledger UpdateState.queued
  rw [hSR, hSP, hsched]
  refine ⟨congrArg (fun l : Ledger => { l with
    running := (u.sched.running.filter (· ∉ u.stoppedRunningReqs) : List Ref) }) ?_, rfl⟩
  exact ledger_modify_same (f := fun _ => q) u.sched hid hst

/-- A request of the step goes on, or it stops and leaves its queue. -/
theorem updateRequest_ledger (hk : u.ledger.Ok) (hn : u.sched.running.Nodup)
    (h : updateRequest c env o m u reqId r = .ok u') :
    (u'.ledger = u.ledger ∧ u'.queued = u.queued) ∨
      ∃ x, stops c (u.sched.objs r) (m.sampledTokenIds reqId) (m.hasPoolerOutput reqId) = true ∧
        Leaves u.sched u'.sched r (hasQueuedUpdate (u.sched.objs r)) x ∧
        (u'.ledger = u.ledger.park r x ∨ (x.isFinished = true ∧
          u'.ledger = (u.ledger.park r x).forget (u.ledger.requestId r))) ∧
        (((u.sched.objs r).status = .running ∧ u'.stoppedPreemptedReqs = u.stoppedPreemptedReqs) ∨
          ((u.sched.objs r).status ≠ .running ∧ u'.stoppedPreemptedReqs = u.stoppedPreemptedReqs.insert r)) := by
  obtain ⟨kept, stopped, q, kv, hstep, -, -, hcase⟩ := updateRequest_eq_ok h
  obtain ⟨computed, placeholders, hdrafts⟩ := afterDrafts_frame o m reqId (u.sched.objs r)
  obtain ⟨hid, hres, hsq, hstatus⟩ := hstep.frame
  rw [hdrafts] at hid hres hsq hstatus
  rcases hcase with ⟨rfl, hsched, hSR, hSP'⟩ | ⟨rfl, hsettled, hsets⟩
  · have hst := (hstatus.resolve_right fun hstop => Bool.noConfusion hstop.1).2
    exact .inl (updateRequest_goesOn hsched hid hst hSR hSP')
  · have hfin := (hstatus.resolve_left fun hgo => Bool.noConfusion hgo.1).2
    obtain ⟨q', hobjs, hid', hnext, hrun, hleaves, hreq⟩ := hsettled.leaves (Function.update_self ..) hfin
    dsimp only at hobjs hnext hrun hreq
    rw [Function.update_idem] at hobjs
    have hsetsR := hsets.imp (fun hset => And.intro hset.1 hset.2.1) fun hset => And.intro hset.1 hset.2.1
    have hledger := ledger_stopped hk hn (hid'.trans hid) hobjs hnext hrun hsetsR
    have hqueued : hasQueuedUpdate q = hasQueuedUpdate (u.sched.objs r) := by
      unfold hasQueuedUpdate
      rw [hres, hsq]
    have hstops : stops c (u.sched.objs r) (m.sampledTokenIds reqId) (m.hasPoolerOutput reqId) = true := by
      refine hstep.stops_of_stopped ?_ ?_
      · rw [hdrafts]
        rfl
      · rw [hdrafts]
    refine .inr ⟨q'.status, hstops, ?_, ?_, hsets.imp (fun hset => ⟨hset.1, hset.2.2⟩) fun hset => ⟨hset.1, hset.2.2⟩⟩
    · rw [← hqueued]
      exact hleaves.congr rfl rfl
    · rcases hreq with hreq | ⟨hf, hreq⟩
      · exact .inl (by rw [hledger, hreq]; rfl)
      · exact .inr ⟨hf, by rw [hledger, hreq, hid]; rfl⟩

theorem updateRequest_books (hk : u.ledger.Kept u.queued) (hn : u.sched.running.Nodup)
    (hr : u.ledger.Live r) (hSP : r ∉ u.stoppedPreemptedReqs)
    (h : updateRequest c env o m u reqId r = .ok u') :
    u'.ledger.Kept u'.queued ∧
      (u.ledger.Exact u.queued → StopsInWaiting c u.sched m reqId r →
        u'.ledger.Exact u'.queued) := by
  rcases updateRequest_ledger hk.toOk hn h with ⟨hledger, hqueued⟩ | ⟨x, hstops, hleaves, hl', hsets⟩
  · rw [hledger, hqueued]
    exact ⟨hk, fun hq _ => hq⟩
  · rcases hsets with ⟨hst, hSP'⟩ | ⟨hst, hSP'⟩
    · have hq' := hleaves.queued_of_running hSP hSP'
      exact (books_of_running_stop hk hr hst hl' hq').imp id fun hexact hq _ => hexact hq
    · obtain ⟨a, ha⟩ : ∃ a : Multiset Ref, a = (u.sched.waiting.filter (· ∉ u.stoppedPreemptedReqs) : List Ref) :=
        ⟨_, rfl⟩
      have hmem : r ∈ u.sched.waiting → r ∈ a := fun hw => by
        rw [ha]
        exact Multiset.mem_coe.mpr (List.mem_filter.mpr ⟨hw, by simpa using hSP⟩)
      have hsplit : u.queued = a + u.sched.skippedWaiting := by
        rw [ha]
        rfl
      rw [hsplit] at hk ⊢
      have hbooks := books_of_queued_stop (w := u'.queued) hk hr hleaves.ne_running hl'
      rcases hleaves.queued_of_preempted hSP' ha with ⟨hq', hfin⟩ | ⟨hlive, hq'⟩
      · refine (hbooks (.inl hq')).imp id fun hexact hq hcond => ?_
        obtain ⟨hw, hnone⟩ := hcond hst hstops
        refine hexact hq (hmem hw) fun hlive => ?_
        rw [hfin hnone] at hlive
        cases hlive
      · refine (hbooks (.inr ⟨hlive, hq'⟩)).imp id fun hexact hq hcond => ?_
        exact hexact hq (hmem (hcond hst hstops).1) fun _ => hq'

theorem updateRequest_frame (h : updateRequest c env o m u reqId r = .ok u') :
    (∃ q, u'.sched.objs = Function.update u.sched.objs r q ∧
        q.requestId = (u.sched.objs r).requestId) ∧
      u'.sched.nextRef = u.sched.nextRef ∧ u'.sched.running = u.sched.running ∧
      u.sched.waiting ⊆ u'.sched.waiting ∧
      ∀ x ∈ u'.stoppedPreemptedReqs, x = r ∨ x ∈ u.stoppedPreemptedReqs := by
  obtain ⟨kept, stopped, q, kv, hstep, -, -, hcase⟩ := updateRequest_eq_ok h
  obtain ⟨computed, placeholders, hdrafts⟩ := afterDrafts_frame o m reqId (u.sched.objs r)
  obtain ⟨hid, -, -, hstatus⟩ := hstep.frame
  rw [hdrafts] at hid
  rcases hcase with ⟨rfl, hsched, -, hSP⟩ | ⟨rfl, hsettled, hsets⟩
  · rw [hsched, hSP]
    exact ⟨⟨q, rfl, hid⟩, rfl, rfl, fun _ => id, fun x hx => .inr hx⟩
  · have hfin : q.isFinished = true := by
      rcases hstatus with ⟨h, -⟩ | ⟨-, h⟩
      · cases h
      · exact h
    have hobjq : ({ u.sched with
        objs := Function.update u.sched.objs r q, kvCacheManager := kv } : Scheduler).objs r = q :=
      Function.update_self ..
    obtain ⟨q', hobjs, hid', hnext, hrun, hwhere⟩ := hsettled.cases (by rw [hobjq]; exact hfin)
    rw [hobjq] at hid'
    dsimp only at hobjs hrun hwhere
    rw [Function.update_idem] at hobjs
    refine ⟨⟨q', hobjs, hid'.trans hid⟩, hnext, hrun, ?_, ?_⟩
    · rcases hwhere with ⟨-, hw, -⟩ | ⟨-, -, -, hw, -⟩ | ⟨-, hw, -⟩
      · rw [hw]
        exact fun _ => id
      · exact fun x hx => hw.mem_iff.mpr (List.mem_cons_of_mem r hx)
      · rw [hw]
        exact fun _ => id
    · rcases hsets with ⟨-, -, hSP⟩ | ⟨-, -, hSP⟩
      · rw [hSP]
        exact fun x hx => .inr hx
      · rw [hSP]
        exact fun x hx => List.mem_insert_iff.mp hx

structure Looping (s : Scheduler) (ids : List ReqId) (u : UpdateState) : Prop where
  kept : u.ledger.Kept u.queued
  nextRef : u.sched.nextRef = s.nextRef
  running : u.sched.running = s.running
  requestId : ∀ r, (u.sched.objs r).requestId = (s.objs r).requestId
  untouched : ∀ r, (s.objs r).requestId ∈ ids → u.sched.objs r = s.objs r
  waiting : s.waiting ⊆ u.sched.waiting
  pending : ∀ r ∈ u.stoppedPreemptedReqs, (s.objs r).requestId ∉ ids

theorem Looping.tail {ids : List ReqId} (hl : Looping s (reqId :: ids) u) : Looping s ids u where
  kept := hl.kept
  nextRef := hl.nextRef
  running := hl.running
  requestId := hl.requestId
  untouched r hr := hl.untouched r (List.mem_cons_of_mem reqId hr)
  waiting := hl.waiting
  pending r hr hmem := hl.pending r hr (List.mem_cons_of_mem reqId hmem)

theorem Looping.step {ids : List ReqId} (hl : Looping s (reqId :: ids) u) (hn : s.running.Nodup)
    (hids : reqId ∉ ids) (hr : u.sched.requests.get? reqId = some r)
    (hf : (u.sched.objs r).isFinished = false) (h : updateRequest c env o m u reqId r = .ok u') :
    Looping s ids u' ∧ (u.ledger.Exact u.queued → StopsInWaiting c s m reqId r →
      u'.ledger.Exact u'.queued) := by
  have hlive : u.ledger.Live r := hl.kept.toOk.live_of_get? hr hf
  have hid : (s.objs r).requestId = reqId :=
    (hl.requestId r).symm.trans (hl.kept.known reqId r hr).2
  have hSP : r ∉ u.stoppedPreemptedReqs := by
    intro hmem
    apply hl.pending r hmem
    rw [hid]
    exact List.mem_cons_self
  have hbooks := updateRequest_books hl.kept (hl.running ▸ hn) hlive hSP h
  obtain ⟨⟨q, hobjs, hqid⟩, hnext, hrun, hwaiting, hpending⟩ := updateRequest_frame h
  have hother : ∀ x, (s.objs x).requestId ∈ ids → x ≠ r := by
    intro x hx hxr
    rw [hxr, hid] at hx
    exact hids hx
  refine ⟨⟨hbooks.1, hnext.trans hl.nextRef, hrun.trans hl.running, fun x => ?_, fun x hx => ?_, fun x hx => ?_,
    fun x hx => ?_⟩, fun hq hcond => hbooks.2 hq fun hst hstops => ?_⟩
  · rw [← hl.requestId x, hobjs]
    by_cases hx : x = r
    · rw [hx, Function.update_self, hqid]
    · rw [Function.update_of_ne hx]
  · rw [hobjs, Function.update_of_ne (hother x hx)]
    exact hl.untouched x (List.mem_cons_of_mem reqId hx)
  · exact hwaiting (hl.waiting hx)
  · rcases hpending x hx with rfl | hx
    · rw [hid]
      exact hids
    · exact fun hmem => hl.pending x hx (List.mem_cons_of_mem reqId hmem)
  · have hobj : u.sched.objs r = s.objs r := hl.untouched r (hid ▸ List.mem_cons_self)
    rw [hobj] at hst hstops ⊢
    obtain ⟨hw, hupd⟩ := hcond hst hstops
    exact ⟨hl.waiting hw, hupd⟩

def AllStopInWaiting (c : SchedulerConfig) (s : Scheduler) (m : ModelRunnerOutput)
    (ids : List ReqId) : Prop :=
  ∀ id ∈ ids, ∀ r < s.nextRef, (s.objs r).requestId = id → (s.objs r).isFinished = false →
    StopsInWaiting c s m id r

theorem updateRequests_books {failed : List ReqId} {items : List (ReqId × Int)}
    (hl : Looping s (items.map Prod.fst) u) (hn : s.running.Nodup)
    (hnodup : (items.map Prod.fst).Nodup)
    (h : updateRequests c env o m failed items u = .ok u') :
    Looping s [] u' ∧ (u.ledger.Exact u.queued →
      AllStopInWaiting c s m (items.map Prod.fst) → u'.ledger.Exact u'.queued) := by
  induction items generalizing u with
  | nil =>
    cases h
    exact ⟨hl, fun hq _ => hq⟩
  | cons item items ih =>
    obtain ⟨reqId, n⟩ := item
    rw [List.map_cons, List.nodup_cons] at hnodup
    simp only [updateRequests, Result.bind_eq_ok] at h
    obtain ⟨-, -, h⟩ := h
    have hskip : updateRequests c env o m failed items u = .ok u' → Looping s [] u' ∧
        (u.ledger.Exact u.queued → AllStopInWaiting c s m (reqId :: items.map Prod.fst) →
          u'.ledger.Exact u'.queued) := by
      intro h
      refine (ih hl.tail hnodup.2 h).imp id fun hexact hq hcond => ?_
      exact hexact hq fun id hid => hcond id (List.mem_cons_of_mem reqId hid)
    split at h
    · exact hskip h
    · split at h
      · exact hskip h
      · rename_i r hr
        split at h
        · exact hskip h
        · rename_i hf
          simp only [Result.bind_eq_ok] at h
          obtain ⟨u₁, hu₁, h⟩ := h
          have hf : (u.sched.objs r).isFinished = false := by simpa using hf
          obtain ⟨hl₁, hexact₁⟩ := hl.step hn hnodup.1 hr hf hu₁
          refine (ih hl₁ hnodup.2 h).imp id fun hexact hq hcond => ?_
          obtain ⟨hlt, hid⟩ := hl.kept.known reqId r hr
          have hid : (s.objs r).requestId = reqId := (hl.requestId r).symm.trans hid
          have hobj : u.sched.objs r = s.objs r := hl.untouched r (hid ▸ List.mem_cons_self)
          have hstop := hcond reqId List.mem_cons_self r (hl.nextRef ▸ hlt) hid (hobj ▸ hf)
          exact hexact (hexact₁ hq hstop) fun id hid => hcond id (List.mem_cons_of_mem reqId hid)

end Scheduler

end Vllm
