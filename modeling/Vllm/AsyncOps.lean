import Vllm.AsyncUpdate
import Vllm.QueueOps
import Vllm.ScheduleFrame

namespace Vllm

open Scheduler

def expectedTokens (s : Scheduler) (o : SchedulerOutput) (id : ReqId) : Nat :=
  if id ∈ o.numScheduledTokens.keys then
    match s.requests.get? id with
    | none => 0
    | some r =>
      if (s.objs r).isPrefillChunk then 0
      else 1 + (o.scheduledSpecDecodeTokens.getD id []).length
  else 0

def Mark.scheduled (s : Scheduler) (o : SchedulerOutput) : Mark := { expected := expectedTokens s o }

theorem linked_scheduled (s : Scheduler) (o : SchedulerOutput) : Linked o (Mark.scheduled s o) := by
  intro id hne
  have hne : expectedTokens s o id ≠ 0 := hne
  show id ∈ o.numScheduledTokens.keys ∧ expectedTokens s o id = _
  unfold expectedTokens at hne ⊢
  split at hne
  · rename_i hid
    rw [if_pos hid]
    refine ⟨hid, ?_⟩
    split at hne
    · exact absurd rfl hne
    · rename_i r hr
      split at hne
      · exact absurd rfl hne
      · rename_i hchunk
        simp [hchunk]
  · exact absurd rfl hne

namespace Scheduler

variable {c : SchedulerConfig} {env : Outside} {s s' : Scheduler} {o o' : SchedulerOutput}
  {ks : List Mark} {r : Ref}

structure SameCounters (s s' : Scheduler) : Prop where
  requests : s'.requests = s.requests
  requestId : ∀ r, (s'.objs r).requestId = (s.objs r).requestId
  status : ∀ r, (s'.objs r).status = (s.objs r).status
  discard : ∀ r, (s'.objs r).discardLatestAsyncTokens = (s.objs r).discardLatestAsyncTokens

theorem SameCounters.refl (s : Scheduler) : SameCounters s s :=
  ⟨rfl, fun _ => rfl, fun _ => rfl, fun _ => rfl⟩

theorem SameCounters.trans {s s₁ s₂ : Scheduler} (h : SameCounters s s₁) (h' : SameCounters s₁ s₂) :
    SameCounters s s₂ :=
  ⟨h'.requests.trans h.requests, fun r => (h'.requestId r).trans (h.requestId r),
    fun r => (h'.status r).trans (h.status r), fun r => (h'.discard r).trans (h.discard r)⟩

theorem SameCounters.known (h : SameCounters s s') (hk : Known s) : Known s' := by
  intro id r hr
  rw [h.requests] at hr
  rw [h.requestId]
  exact hk id r hr

theorem modify_same {α : Type} {f : Request → Request} (g : Request → α)
    (hf : g (f (s.objs r)) = g (s.objs r)) (x : Ref) :
    g ((s.modify r f).objs x) = g (s.objs x) := by
  unfold modify
  dsimp only
  by_cases hx : x = r
  · subst hx
    rw [Function.update_self, hf]
  · rw [Function.update_of_ne hx]

theorem advanceRequest_counters (s : Scheduler) (r : Ref) (n : Int) :
    SameCounters s (s.advanceRequest c r n) ∧
      ∀ x, ((s.advanceRequest c r n).objs x).numOutputPlaceholders =
        (s.objs x).numOutputPlaceholders := by
  have hobjs : (s.advanceRequest c r n).objs = (s.modify r (advance n)).objs := by
    unfold advanceRequest
    dsimp only
    split <;> rfl
  have hrequests : (s.advanceRequest c r n).requests = s.requests := by
    unfold advanceRequest
    dsimp only
    split <;> rfl
  rw [hobjs]
  refine ⟨⟨hrequests, fun x => ?_, fun x => ?_, fun x => ?_⟩, fun x => ?_⟩
  · rw [hobjs]
    exact modify_same Request.requestId rfl x
  · rw [hobjs]
    exact modify_same Request.status rfl x
  · rw [hobjs]
    exact modify_same Request.discardLatestAsyncTokens rfl x
  · exact modify_same Request.numOutputPlaceholders rfl x

theorem advanceRequests_counters {items : List (ReqId × Int)}
    (h : advanceRequests c o items s = .ok (o', s')) :
    SameCounters s s' ∧ (∀ x, (s'.objs x).numOutputPlaceholders =
      (s.objs x).numOutputPlaceholders) ∧
      o'.numScheduledTokens = o.numScheduledTokens ∧
      o'.scheduledSpecDecodeTokens = o.scheduledSpecDecodeTokens := by
  induction items generalizing s o with
  | nil =>
    cases h
    exact ⟨.refl _, fun _ => rfl, rfl, rfl⟩
  | cons item items ih =>
    obtain ⟨reqId, n⟩ := item
    unfold advanceRequests at h
    split at h
    · cases h
    · rename_i r _
      obtain ⟨hsame, hn, hsched, hspec⟩ := ih h
      obtain ⟨hsame₁, hn₁⟩ := advanceRequest_counters (c := c) s r n
      exact ⟨hsame₁.trans hsame, fun x => (hn x).trans (hn₁ x), hsched, hspec⟩

theorem reservePlaceholders_counters {ids : List ReqId} (hknown : Known s) (hnodup : ids.Nodup)
    (h : reservePlaceholders c o ids s = .ok (o', s')) :
    SameCounters s s' ∧ o'.numScheduledTokens = o.numScheduledTokens ∧
      o'.scheduledSpecDecodeTokens = o.scheduledSpecDecodeTokens ∧
      (∀ x, (s'.objs x).isPrefillChunk = (s.objs x).isPrefillChunk) ∧
      ∀ id x, s.requests.get? id = some x → (s'.objs x).numOutputPlaceholders =
        (s.objs x).numOutputPlaceholders + (if id ∈ ids ∧ (s.objs x).isPrefillChunk = false then
          ((1 + (o.scheduledSpecDecodeTokens.getD id []).length : Nat) : Int) else 0) := by
  induction ids generalizing s o with
  | nil =>
    cases h
    exact ⟨.refl _, rfl, rfl, fun _ => rfl, fun id x _ => by simp⟩
  | cons reqId ids ih =>
    rw [List.nodup_cons] at hnodup
    unfold reservePlaceholders at h
    split at h
    · cases h
    · rename_i r hr
      generalize hf : addPlaceholders c (o.scheduledSpecDecodeTokens.getD reqId []).length = f at h
      have hfield : ∀ {α : Type} (g : Request → α), (∀ q n l, g { q with
          numOutputPlaceholders := n, specTokenIds := l } = g q) →
          ∀ x, g ((s.modify r f).objs x) = g (s.objs x) := by
        intro α g hg x
        refine modify_same g ?_ x
        rw [← hf]
        unfold addPlaceholders
        split
        · rfl
        · exact hg _ _ _
      have hsame₁ : SameCounters s (s.modify r f) :=
        ⟨rfl, hfield Request.requestId fun _ _ _ => rfl, hfield Request.status fun _ _ _ => rfl,
          hfield Request.discardLatestAsyncTokens fun _ _ _ => rfl⟩
      have hchunk₁ := hfield Request.isPrefillChunk fun _ _ _ => rfl
      obtain ⟨hsame, hsched, hspec, hchunk, hn⟩ := ih (hsame₁.known hknown) hnodup.2 h
      refine ⟨hsame₁.trans hsame, hsched, hspec, fun x => (hchunk x).trans (hchunk₁ x),
        fun id x hx => ?_⟩
      rw [hn id x hx, hchunk₁ x]
      by_cases hid : id = reqId
      · subst hid
        obtain rfl := Option.some.inj (hx.symm.trans hr)
        have hobj : (s.modify x f).objs x = f (s.objs x) := Function.update_self ..
        rw [hobj, ← hf]
        unfold addPlaceholders
        cases hc : (s.objs x).isPrefillChunk with
        | true => simp
        | false => simp [hnodup.1]
      · have hxr : x ≠ r := by
          rintro rfl
          exact hid ((hknown id x hx).symm.trans (hknown reqId x hr))
        have hobj : (s.modify r f).objs x = s.objs x := Function.update_of_ne hxr _ _
        rw [hobj]
        simp [hid]

theorem updateAfterSchedule_counters (hasync : c.asyncScheduling = true) (hknown : Known s)
    (h : updateAfterSchedule c o s = .ok (o', s')) :
    SameCounters s s' ∧ ∀ id x, s.requests.get? id = some x →
      (s'.objs x).numOutputPlaceholders =
        (s.objs x).numOutputPlaceholders + expectedTokens s' o' id := by
  simp only [updateAfterSchedule, Result.bind_eq_ok, Prod.exists, hasync, if_true] at h
  obtain ⟨o₁, s₁, hadv, h⟩ := h
  obtain ⟨hsame₁, hn₁, hsched₁, hspec₁⟩ := advanceRequests_counters hadv
  have hclear : SameCounters s₁ { s₁ with finishedReqIds := [] } :=
    ⟨rfl, fun _ => rfl, fun _ => rfl, fun _ => rfl⟩
  have hsame₂ := hsame₁.trans hclear
  obtain ⟨hsame, hsched, hspec, hchunk, hn⟩ :=
    reservePlaceholders_counters (hsame₂.known hknown) o₁.numScheduledTokens.nodup h
  refine ⟨hsame₂.trans hsame, fun id x hx => ?_⟩
  have hx₁ : s₁.requests.get? id = some x := by
    rw [hsame₁.requests]
    exact hx
  have hx' : s'.requests.get? id = some x := by
    rw [(hsame₂.trans hsame).requests]
    exact hx
  rw [hn id x hx₁]
  dsimp only
  rw [hn₁ x]
  congr 1
  unfold expectedTokens
  rw [hx', hsched, hspec]
  dsimp only
  rw [hchunk x]
  dsimp only
  by_cases hid : id ∈ o₁.numScheduledTokens.keys
  · cases hc : (s₁.objs x).isPrefillChunk with
    | true => simp
    | false =>
      rw [if_pos ⟨hid, rfl⟩, if_pos hid]
      rfl
  · rw [if_neg fun hand => hid hand.1, if_neg hid]
    rfl

theorem schedule_tallied (hasync : c.asyncScheduling = true) (hk : s.ledger.Kept s.queued)
    (hload : c.hasConnector = true → s.ledger.Exact s.queued)
    (h : schedule c env s = .ok (o, s')) (ht : AllTallied s ks) :
    AllTallied s' (ks ++ [Mark.scheduled s' o]) := by
  simp only [schedule, Result.bind_eq_ok, Prod.exists] at h
  obtain ⟨st, hst, o₁, s₁, hout, h⟩ := h
  obtain ⟨hres, hfinished⟩ := Step.scheduleRequests_reschedules hk hload hst
  obtain ⟨⟨kv, rfl⟩, -⟩ := Step.makeOutput_eq_ok hout
  have hknown : Known st.sched := by
    intro id r hr
    rw [hres.requests] at hr
    obtain ⟨_, _, _, _, _, _, hq⟩ := hres.objs r
    rw [hq]
    exact (hk.known id r hr).2
  obtain ⟨hsame, hn⟩ := updateAfterSchedule_counters hasync (by exact hknown) h
  intro id r hr hf
  rw [hsame.requests] at hr
  dsimp only at hr
  have hr₀ : s.requests.get? id = some r := by
    rw [← hres.requests]
    exact hr
  have hf₀ : (s.objs r).isFinished = false := by
    rw [Request.isFinished, hsame.status r] at hf
    cases hfs : (s.objs r).isFinished with
    | false => rfl
    | true =>
      have hfin : (st.sched.objs r).isFinished = true := hfinished r hfs
      rw [show ((st.sched.objs r).status).isFinished = true from hfin] at hf
      cases hf
  have htally := ht id r hr₀ hf₀
  unfold Request.Tallied at htally ⊢
  rw [hn id r hr, hsame.discard r]
  dsimp only
  obtain ⟨_, _, _, _, _, _, hq⟩ := hres.objs r
  rw [hq]
  exact htally.schedule (k := Mark.scheduled s' o) List.not_mem_nil

def forcePreempted (q : Request) : Request :=
  { markPreempted q with numOutputPlaceholders := 0, discardLatestAsyncTokens := true }

theorem preemptAll_objs {fuel : Nat} (hn : s.running.Nodup) (hfuel : s.running.length ≤ fuel)
    (h : preemptAll c fuel s = .ok s') :
    s'.requests = s.requests ∧
      ∀ r, s'.objs r = if r ∈ s.running then forcePreempted (s.objs r) else s.objs r := by
  induction fuel generalizing s with
  | zero =>
    have hnil : s.running = [] := List.length_eq_zero_iff.mp (Nat.le_zero.mp hfuel)
    cases h
    simp [hnil]
  | succ fuel ih =>
    unfold preemptAll at h
    split at h
    · rename_i hnone
      cases h
      rw [List.getLast?_eq_none_iff] at hnone
      simp [hnone]
    · rename_i v hv
      simp only [Result.bind_eq_ok] at h
      obtain ⟨s₁, hs₁, h⟩ := h
      obtain ⟨-, rfl⟩ := Step.preemptRequest_eq_ok hs₁
      generalize hs₂ : Scheduler.modify _ v _ = s₂ at h
      have hobjs₂ : s₂.objs = Function.update s.objs v (forcePreempted (s.objs v)) := by
        rw [← hs₂]
        simp only [modify, Function.update_self, Function.update_idem]
        rfl
      have hrun₂ : s₂.running = s.running.dropLast := by
        rw [← hs₂]
        rfl
      have hreq₂ : s₂.requests = s.requests := by
        rw [← hs₂]
        rfl
      have hlast : s.running.dropLast ++ [v] = s.running := List.dropLast_append_getLast? v hv
      have hmem : ∀ r, r ∈ s.running ↔ r ∈ s.running.dropLast ∨ r = v := by
        intro r
        rw [← hlast]
        simp
      have hnd := hn
      rw [← hlast, List.nodup_append] at hnd
      have hv' : v ∉ s.running.dropLast := fun hmem => hnd.2.2 v hmem v List.mem_cons_self rfl
      have hlen : s₂.running.length ≤ fuel := by
        rw [hrun₂, List.length_dropLast]
        omega
      obtain ⟨hreq, hobjs⟩ := ih (by rw [hrun₂]; exact hnd.1) hlen h
      refine ⟨hreq.trans hreq₂, fun r => ?_⟩
      rw [hobjs r, hrun₂, hobjs₂]
      by_cases hr : r = v
      · subst hr
        rw [if_pos ((hmem r).mpr (.inr rfl)), if_neg hv', Function.update_self]
      · rw [Function.update_of_ne hr]
        by_cases hrun : r ∈ s.running.dropLast
        · rw [if_pos hrun, if_pos ((hmem r).mpr (.inl hrun))]
        · rw [if_neg hrun, if_neg fun hmem' => ((hmem r).mp hmem').elim hrun hr]

theorem preemptAll_tallied (hk : s.ledger.Kept s.queued)
    (hone : ∀ r ∈ s.running, (Mark.yielding ks (s.objs r).requestId).length = 1)
    (h : preemptAll c s.running.length s = .ok s') (ht : AllTallied s ks) :
    AllTallied s' (ks.map (Mark.markStale (s.running.map fun r => (s.objs r).requestId))) := by
  obtain ⟨hreq, hobjs⟩ := preemptAll_objs (Multiset.coe_nodup.mp hk.nodup) le_rfl h
  intro id r hr hf
  rw [hreq] at hr
  have hid : (s.objs r).requestId = id := (hk.known id r hr).2
  unfold Request.Tallied
  rw [hobjs r] at hf ⊢
  by_cases hrun : r ∈ s.running
  · rw [if_pos hrun]
    refine Tally.reset (List.mem_map.mpr ⟨r, hrun, hid⟩) ?_
    rw [← hid]
    exact hone r hrun
  · rw [if_neg hrun] at hf ⊢
    refine (ht id r hr hf).others fun hmem => ?_
    obtain ⟨x, hx, hxid⟩ := List.mem_map.mp hmem
    have hreg : s.requests.get? (s.objs x).requestId = some x :=
      hk.registered x (hk.toOk.live hx)
    rw [hxid, hr] at hreg
    exact hrun (Option.some.inj hreg ▸ hx)

theorem finishRequests_tallied {ids : Option (List ReqId)} {status : RequestStatus}
    (h : finishRequests c env s ids status = .ok s') (ht : AllTallied s ks) : AllTallied s' ks := by
  simp only [finishRequests, Result.bind_eq_ok, Result.ensure_eq_ok] at h
  obtain ⟨-, hfin, h⟩ := h
  generalize s.unfinishedOf _ = valid at h
  obtain ⟨hobjs, -, -, -, -, hreq⟩ := finishAll_frame h
  intro id r hr hf
  have hr₀ : s.requests.get? id = some r := by
    rcases hreq id with heq | ⟨hnone, -⟩
    · rw [heq] at hr
      exact hr
    · rw [hnone] at hr
      cases hr
  rw [hobjs r] at hf ⊢
  by_cases hvalid : r ∈ valid
  · rw [if_pos hvalid, Request.isFinished, hfin] at hf
    cases hf
  · rw [if_neg hvalid] at hf ⊢
    exact ht id r hr₀ hf

theorem AllTallied.update {q : Request} {existing : Ref} (ht : AllTallied s ks)
    (hreq : s'.requests = s.requests)
    (hobjs : s'.objs = Function.update s.objs existing q)
    (hlive : (s.objs existing).isFinished = false ∨ q.status = (s.objs existing).status)
    (hn : q.numOutputPlaceholders = (s.objs existing).numOutputPlaceholders)
    (hd : q.discardLatestAsyncTokens = (s.objs existing).discardLatestAsyncTokens) :
    AllTallied s' ks := by
  intro id r hr hf
  rw [hreq] at hr
  rw [hobjs] at hf ⊢
  by_cases hrx : r = existing
  · subst hrx
    rw [Function.update_self] at hf ⊢
    have hf₀ : (s.objs r).isFinished = false := by
      rcases hlive with h | h
      · exact h
      · rw [Request.isFinished, ← h]
        exact hf
    unfold Request.Tallied
    rw [hn, hd]
    exact ht id r hr hf₀
  · rw [Function.update_of_ne hrx] at hf ⊢
    exact ht id r hr hf

theorem addRequest_tallied {params : RequestParams} (hk : s.ledger.Kept s.queued)
    (hfresh : s.requests.get? params.requestId = none →
      ∀ k ∈ ks, k.expected params.requestId = 0)
    (h : addRequest c env s params = .ok s') (ht : AllTallied s ks) : AllTallied s' ks := by
  unfold addRequest at h
  dsimp only at h
  split at h
  · rename_i existing hget
    split at h
    · split at h
      · cases h
      · cases h
        exact ht.update rfl rfl (.inr rfl) rfl rfl
    · rename_i hst
      have hst : (s.objs existing).status = .waitingForStreamingReq := by simpa using hst
      split at h
      · obtain ⟨session, hsession, n, rfl⟩ := updateRequestAsSession_eq_ok h
        unfold Request.updateAsSession at hsession
        rw [Option.map_eq_some_iff] at hsession
        obtain ⟨promptTokenIds, -, rfl⟩ := hsession
        refine ht.update rfl rfl (.inl ?_) ?_ ?_
        · rw [Request.isFinished, hst]
          rfl
        · unfold Request.updateBlockHashes
          split <;> rfl
        · unfold Request.updateBlockHashes
          split <;> rfl
      · exact finishRequests_tallied h ht
  · rename_i hget
    cases h
    obtain ⟨hid, -⟩ := init_status c.blockHasher params
    have hobjs : ∀ (q : Request) (s : Scheduler), (enqueueWaitingRequest c (s.register q).2
        (s.register q).1).objs = Function.update s.objs s.nextRef q := by
      intro q s
      unfold enqueueWaitingRequest
      split <;> rfl
    have hrequests : ∀ (q : Request) (s : Scheduler), (enqueueWaitingRequest c (s.register q).2
        (s.register q).1).requests = s.requests := by
      intro q s
      unfold enqueueWaitingRequest
      split <;> rfl
    generalize hq : (if (params.init c.blockHasher).resumable = true then
      { params.init c.blockHasher with streamingQueue := some [] } else
        params.init c.blockHasher) = q
    have hqid : q.requestId = params.requestId := by
      rw [← hid, ← hq]
      split <;> rfl
    have hcounters : q.numOutputPlaceholders = 0 ∧ q.discardLatestAsyncTokens = false := by
      have hinit : (params.init c.blockHasher).numOutputPlaceholders = 0 ∧
          (params.init c.blockHasher).discardLatestAsyncTokens = false := by
        unfold RequestParams.init Request.updateBlockHashes
        split
        · exact ⟨rfl, rfl⟩
        · exact ⟨rfl, rfl⟩
      rw [← hq]
      split
      · exact hinit
      · exact hinit
    rw [hid] at hget
    intro id r hr hf
    dsimp only at hr hf ⊢
    rw [hobjs] at hf ⊢
    rw [hrequests, Dict.get?_set, hqid] at hr
    split at hr
    · rename_i hidr
      obtain rfl := Option.some.inj hr
      unfold Request.Tallied
      simp only [Scheduler.register]
      rw [Function.update_self, hcounters.1, hcounters.2]
      rw [← hidr]
      exact Tally.new (hfresh hget)
    · have hlt : r < s.nextRef := (hk.known id r hr).1
      rw [Function.update_of_ne (Nat.ne_of_lt hlt)] at hf ⊢
      exact ht id r hr hf

end Scheduler

end Vllm
