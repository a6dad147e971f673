import Vllm.EncoderOwners
import Vllm.EncoderRun

namespace Vllm

open EncoderCacheManager

namespace EncoderCacheManager

variable {e e' : EncoderCacheManager} {h : String} {id : ReqId}

theorem exists_pins_of_isPinnedBy (hp : e.isPinnedBy id = true) : ∃ h, e.Pins h id := by
  obtain ⟨⟨h, refs⟩, hentry, hmem⟩ := List.any_eq_true.mp hp
  exact ⟨h, refs, Dict.get?_eq_some.mpr hentry, List.contains_iff_mem.mp hmem⟩

theorem Unpins.isPinnedBy_false (hu : Unpins e e') (hno : e.isPinnedBy id = false) : e'.isPinnedBy id = false := by
  refine Bool.eq_false_iff.mpr fun hp => ?_
  obtain ⟨x, hpins⟩ := exists_pins_of_isPinnedBy hp
  have hold : e.isPinnedBy id = true := isPinnedBy_of_pins (hu.pins x id hpins)
  rw [hno] at hold
  cases hold

theorem free_unpins (e : EncoderCacheManager) (request : Request) : Unpins e (e.free request) :=
  foldl_unpins (fun e i => freeEncoderInput_unpins e request i) _ e

end EncoderCacheManager

theorem OutputStep.mmFeatures {c : SchedulerConfig} {q q' : Request} {generated kept : List Token}
    {pooled stopped : Bool} (h : OutputStep c q generated pooled kept stopped q') :
    q'.mmFeatures = q.mmFeatures := by
  cases h with
  | appendAsync _ _ _ happend =>
    obtain ⟨status, reason, hashes, rfl, -⟩ := appendUntilStop_cases happend
    rfl
  | appendSync _ _ happend =>
    obtain ⟨status, reason, hashes, rfl, -⟩ := appendUntilStop_cases happend
    rfl
  | discard | pool | idle => rfl

theorem Request.updateAsSession_mmHashes {hasher : Option BlockHasher} {q session : Request}
    {update : StreamingUpdate} (h : q.updateAsSession hasher update = some session) :
    q.mmHashes ⊆ session.mmHashes := by
  unfold Request.updateAsSession at h
  rw [Option.map_eq_some_iff] at h
  obtain ⟨promptTokenIds, -, rfl⟩ := h
  have hfeatures : q.mmHashes ⊆ (q.extendSession promptTokenIds update).mmHashes := by
    unfold Request.mmHashes Request.extendSession
    dsimp only
    rw [List.map_append]
    exact List.subset_append_left _ _
  unfold Request.updateBlockHashes
  split
  · exact hfeatures
  · exact hfeatures

namespace Scheduler

variable {c : SchedulerConfig} {env : Outside} {s s' : Scheduler} {r v : Ref} {holders holders' : List Ref}
  {status : RequestStatus} {refs : List Ref}

theorem Owned.drop (ho : s.Owned holders) (hitems : KeepsItems s s')
    (hno : s.encoderCacheManager.isPinnedBy (s.objs v).requestId = false)
    (hkept : ∀ r ∈ holders, r ≠ v → r ∈ holders')
    (hpins : s'.encoderCacheManager = s.encoderCacheManager) : s'.Owned holders' where
  decoderOnly := by
    rw [hpins]
    exact ho.decoderOnly
  owner x id hp := by
    rw [hpins] at hp
    obtain ⟨r, hr, hid, hx⟩ := ho.owner x id hp
    refine ⟨r, hkept r hr ?_, (hitems.requestId r).trans hid, hitems.mmHashes r hx⟩
    rintro rfl
    have hyes := isPinnedBy_of_pins hp
    rw [← hid, hno] at hyes
    cases hyes

theorem Owned.of_eq (ho : s.Owned s.running) (hobjs : s'.objs = s.objs) (hrun : s'.running = s.running)
    (he : s'.encoderCacheManager = s.encoderCacheManager) : s'.Owned s'.running := by
  refine ho.keep ⟨fun r => by rw [hobjs], fun r => ?_⟩ (fun r hr => hrun ▸ hr) ?_
  · rw [hobjs]
    exact List.Subset.refl _
  · rw [he]
    exact .refl _

theorem freeRequest_owned {delay : Bool} (ho : s.Owned holders) (hkept : ∀ x ∈ holders, x ≠ r → x ∈ holders')
    (hok : freeRequest c env s r delay = .ok s') : s'.Owned holders' := by
  obtain ⟨-, kv, requests, ids, rfl, -⟩ := freeRequest_eq_ok hok
  exact ho.free ⟨fun _ => rfl, fun _ => List.Subset.refl _⟩ hkept rfl

theorem finishRequest_owned (ho : s.Owned (r :: holders)) (hok : finishRequest c env status s r = .ok s') :
    s'.Owned holders := by
  obtain ⟨finished, failed, delay, hfree, -⟩ := finishRequest_eq_ok hok
  have hmarked : ({ s with
      objs := Function.update s.objs r { s.objs r with status := status }
      finishedRecvingKvReqIds := finished
      failedRecvingKvReqIds := failed } : Scheduler).Owned (r :: holders) :=
    ho.keep (keepsItems_update rfl rfl (List.Subset.refl _)) (fun _ => id) (.refl _)
  exact freeRequest_owned hmarked (fun x hx hne => (List.mem_cons.mp hx).resolve_left hne) hfree

theorem finishAll_owned (ho : s.Owned (refs ++ holders))
    (hok : refs.foldlM (finishRequest c env status) s = .ok s') : s'.Owned holders := by
  induction refs generalizing s with
  | nil =>
    cases hok
    exact ho
  | cons r refs ih =>
    rw [List.foldlM_cons, Result.bind_eq_ok] at hok
    obtain ⟨s₁, hs₁, hok⟩ := hok
    exact ih (finishRequest_owned ho hs₁) hok

theorem mem_removeAll {l items : List Ref} (hr : r ∈ l) (hnot : r ∉ items) : r ∈ removeAll l items := by
  unfold removeAll
  split
  · exact hr
  · rename_i item
    refine (List.mem_erase_of_ne ?_).mpr hr
    rintro rfl
    exact hnot (List.mem_singleton_self r)
  · exact List.mem_filter.mpr ⟨hr, decide_eq_true hnot⟩

theorem finishRequests_owned {ids : Option (List ReqId)} (ho : s.Owned s.running)
    (hok : finishRequests c env s ids status = .ok s') : s'.Owned s'.running := by
  simp only [finishRequests, Result.bind_eq_ok] at hok
  obtain ⟨-, -, hok⟩ := hok
  generalize s.unfinishedOf _ = valid at hok
  obtain ⟨-, -, hrun, -⟩ := finishAll_frame hok
  rw [hrun]
  have hdequeued : KeepsItems s (dequeueFinished c s valid) := ⟨fun _ => rfl, fun _ => List.Subset.refl _⟩
  refine finishAll_owned (ho.keep hdequeued (fun r hr => ?_) (.refl _)) hok
  rw [List.mem_append]
  by_cases hvalid : r ∈ valid
  · exact .inl hvalid
  · exact .inr (mem_removeAll hr fun hmem => hvalid (List.mem_of_mem_filter hmem))

theorem preemptAll_owned {fuel : Nat} (ho : s.Owned s.running) (hok : preemptAll c fuel s = .ok s') :
    s'.Owned s'.running := by
  induction fuel generalizing s with
  | zero =>
    cases hok
    exact ho
  | succ fuel ih =>
    unfold preemptAll at hok
    split at hok
    · cases hok
      exact ho
    · rename_i r hlast
      rw [Result.bind_eq_ok] at hok
      obtain ⟨s₁, hs₁, hok⟩ := hok
      obtain ⟨-, rfl⟩ := Step.preemptRequest_eq_ok hs₁
      refine ih (ho.free (v := r) ?_ (fun x hx hne => ?_) rfl) hok
      · have hmarked : KeepsItems s (s.modify r markPreempted) := keepsItems_update rfl rfl (List.Subset.refl _)
        exact hmarked.trans (keepsItems_update rfl rfl (List.Subset.refl _))
      · have hnil : s.running ≠ [] := List.ne_nil_of_mem hx
        rw [List.getLast?_eq_some_getLast hnil, Option.some_inj] at hlast
        rw [← List.dropLast_append_getLast hnil, List.mem_append, List.mem_singleton, hlast] at hx
        exact hx.resolve_right hne

theorem resetPrefixCache_owned {reset : Bool} {success : Option Bool} (ho : s.Owned s.running)
    (hok : resetPrefixCache c s reset = .ok (success, s')) : s'.Owned s'.running := by
  simp only [resetPrefixCache, Result.bind_eq_ok, Result.pure_eq_ok, Prod.mk.injEq] at hok
  obtain ⟨s₁, hs₁, -, rfl⟩ := hok
  have hfirst : s₁.Owned s₁.running := by
    split at hs₁
    · simp only [Result.bind_eq_ok, Result.pure_eq_ok] at hs₁
      obtain ⟨s₂, hs₂, rfl⟩ := hs₁
      exact (preemptAll_owned ho hs₂).of_eq rfl rfl rfl
    · cases hs₁
      exact ho
  exact hfirst.of_eq rfl rfl rfl

theorem enqueueWaitingRequest_owned (ho : s.Owned holders) : (enqueueWaitingRequest c s r).Owned holders := by
  unfold enqueueWaitingRequest
  split
  · exact ho.keep ⟨fun _ => rfl, fun _ => List.Subset.refl _⟩ (fun _ => id) (.refl _)
  · exact ho.keep ⟨fun _ => rfl, fun _ => List.Subset.refl _⟩ (fun _ => id) (.refl _)

theorem register_owned (ho : s.Owned holders) (hold : ∀ r ∈ holders, r < s.nextRef) (request : Request) :
    (s.register request).2.Owned holders where
  decoderOnly := ho.decoderOnly
  owner x id hp := by
    obtain ⟨r, hr, hid, hx⟩ := ho.owner x id hp
    have hobj : (s.register request).2.objs r = s.objs r := Function.update_of_ne (Nat.ne_of_lt (hold r hr)) _ _
    refine ⟨r, hr, ?_, ?_⟩
    · rw [hobj]
      exact hid
    · rw [hobj]
      exact hx

theorem addRequest_owned {params : RequestParams} (ho : s.Owned s.running) (hold : ∀ r ∈ s.running, r < s.nextRef)
    (hok : addRequest c env s params = .ok s') : s'.Owned s'.running := by
  unfold addRequest at hok
  dsimp only at hok
  split at hok
  · split at hok
    · split at hok
      · cases hok
      · cases hok
        exact ho.keep (keepsItems_update rfl rfl (List.Subset.refl _)) (fun _ => id) (.refl _)
    · split at hok
      · obtain ⟨session, hsession, n, rfl⟩ := updateRequestAsSession_eq_ok hok
        have hitems := Request.updateAsSession_mmHashes hsession
        exact ho.keep (keepsItems_update rfl (updateAsSession_frame hsession).1 hitems) (fun _ => id) (.refl _)
      · exact finishRequests_owned ho hok
  · cases hok
    generalize (if (params.init c.blockHasher).resumable = true then _ else _ : Request) = request
    have hqueued := enqueueWaitingRequest_owned (c := c) (r := s.nextRef) (register_owned ho hold request)
    have hrun : (enqueueWaitingRequest c (s.register request).2 s.nextRef).running = s.running := by
      unfold enqueueWaitingRequest
      split
      · rfl
      · rfl
    refine Owned.of_eq (s := enqueueWaitingRequest c (s.register request).2 s.nextRef) ?_ rfl rfl rfl
    rw [hrun]
    exact hqueued

section Update

variable {o : SchedulerOutput} {m : ModelRunnerOutput} {u u' : UpdateState} {reqId : ReqId}

def goesOnStopped (q : Request) : Bool :=
  q.resumable &&
    match q.streamingQueue with
    | some (none :: _) => false
    | _ => true

def parksPinned (c : SchedulerConfig) (s : Scheduler) (m : ModelRunnerOutput) (reqId : ReqId) (r : Ref) : Bool :=
  decide ((s.objs r).status = .running) && goesOnStopped (s.objs r) &&
    stops c (s.objs r) (m.sampledTokenIds reqId) (m.hasPoolerOutput reqId) &&
    s.encoderCacheManager.isPinnedBy (s.objs r).requestId

def UpdateState.staying (u : UpdateState) : List Ref := u.sched.running.filter (· ∉ u.stoppedRunningReqs)

theorem mem_staying {x : Ref} (hrun : u'.sched.running = u.sched.running)
    (hset : u'.stoppedRunningReqs = u.stoppedRunningReqs.insert r ∨ u'.stoppedRunningReqs = u.stoppedRunningReqs)
    (hx : x ∈ u.staying) (hne : x ≠ r) : x ∈ u'.staying := by
  obtain ⟨hmem, hnot⟩ := List.mem_filter.mp hx
  have hnot : x ∉ u.stoppedRunningReqs := of_decide_eq_true hnot
  refine List.mem_filter.mpr ⟨hrun ▸ hmem, decide_eq_true ?_⟩
  rcases hset with hset | hset
  · rw [hset, List.mem_insert_iff, not_or]
    exact ⟨hne, hnot⟩
  · rw [hset]
    exact hnot

theorem handleStoppedRequest_owned {finished : Bool} (hok : handleStoppedRequest c s r = .ok (finished, s')) :
    KeepsItems s s' ∧ s'.encoderCacheManager = s.encoderCacheManager ∧
      (finished = false → goesOnStopped (s.objs r) = true) := by
  rcases handleStoppedRequest_cases hok with ⟨rfl, rfl | ⟨queue, rfl⟩⟩ |
    ⟨-, hres, update, queue, session, hqueue, hsession, n, rfl⟩ | ⟨-, hres, hqueue, n, rfl⟩
  · exact ⟨.refl _, rfl, nofun⟩
  · exact ⟨keepsItems_update rfl rfl (List.Subset.refl _), rfl, nofun⟩
  · have hitems : (s.objs r).mmHashes ⊆ session.mmHashes := by
      have hsub := Request.updateAsSession_mmHashes hsession
      exact hsub
    have hid : session.requestId = (s.objs r).requestId := (updateAsSession_frame hsession).1
    refine ⟨?_, enqueueWaitingRequest_encoder _ r, fun _ => ?_⟩
    · unfold enqueueWaitingRequest
      split
      · exact keepsItems_update rfl hid hitems
      · exact keepsItems_update rfl hid hitems
    · unfold goesOnStopped
      rw [hres, hqueue]
      rfl
  · refine ⟨?_, enqueueWaitingRequest_encoder _ r, fun _ => ?_⟩
    · unfold enqueueWaitingRequest
      split
      · exact keepsItems_update rfl rfl (List.Subset.refl _)
      · exact keepsItems_update rfl rfl (List.Subset.refl _)
    · unfold goesOnStopped
      rcases hqueue with hqueue | hqueue
      · rw [hres, hqueue]
        rfl
      · rw [hres, hqueue]
        rfl

theorem updateRequest_owned (ho : u.sched.Owned u.staying) (hno : parksPinned c u.sched m reqId r = false)
    (hok : updateRequest c env o m u reqId r = .ok u') :
    u'.sched.Owned u'.staying ∧ Unpins u.sched.encoderCacheManager u'.sched.encoderCacheManager := by
  obtain ⟨-, -, hrun, -, -⟩ := updateRequest_frame hok
  obtain ⟨kept, stopped, q, kv, hstep, -, -, hcase⟩ := updateRequest_eq_ok hok
  obtain ⟨computed, placeholders, hdrafts⟩ := afterDrafts_frame o m reqId (u.sched.objs r)
  have hframe := hstep.frame
  have hfeatures := hstep.mmFeatures
  rw [hdrafts] at hframe hfeatures
  obtain ⟨hid, hres, hqueue, -⟩ := hframe
  have hitems : KeepsItems u.sched { u.sched with
      objs := Function.update u.sched.objs r q, kvCacheManager := kv } := by
    refine keepsItems_update rfl hid ?_
    rw [Request.mmHashes, Request.mmHashes, hfeatures]
    exact List.Subset.refl _
  have ho₁ : ({ u.sched with objs := Function.update u.sched.objs r q, kvCacheManager := kv } : Scheduler).Owned
      u.staying := ho.keep hitems (fun _ => id) (.refl _)
  rcases hcase with ⟨rfl, hsched, hset, -⟩ | ⟨rfl, ⟨finished, s₁, hstop, hsettle⟩, hsets⟩
  · have hstaying : u'.staying = u.staying := by
      unfold UpdateState.staying
      rw [hrun, hset]
    rw [hstaying, hsched]
    exact ⟨ho₁, .refl _⟩
  · have hset : u'.stoppedRunningReqs = u.stoppedRunningReqs.insert r ∨
        u'.stoppedRunningReqs = u.stoppedRunningReqs := by
      rcases hsets with ⟨-, hset, -⟩ | ⟨-, hset, -⟩
      · exact .inl hset
      · exact .inr hset
    have hstay : ∀ x ∈ u.staying, x ≠ r → x ∈ u'.staying := fun x hx hne => mem_staying hrun hset hx hne
    obtain ⟨hitems₁, he₁, hgoes⟩ := handleStoppedRequest_owned hstop
    rcases hsettle with ⟨-, hfree⟩ | ⟨rfl, hsched⟩
    · have ho₂ : s₁.Owned u.staying := ho₁.keep hitems₁ (fun _ => id) (by rw [he₁]; exact .refl _)
      refine ⟨freeRequest_owned ho₂ hstay hfree, ?_⟩
      obtain ⟨-, kv', requests, ids, hu', -⟩ := freeRequest_eq_ok hfree
      rw [hu', ← he₁]
      exact free_unpins _ _
    · rw [hsched]
      refine ⟨?_, by rw [he₁]; exact .refl _⟩
      rcases hsets with ⟨hst, -⟩ | ⟨-, hset, -⟩
      · refine ho₁.drop (v := r) hitems₁ ?_ hstay he₁
        have hgoes : goesOnStopped q = true := by
          have hq := hgoes rfl
          dsimp only at hq
          rwa [Function.update_self] at hq
        unfold goesOnStopped at hgoes
        rw [hres, hqueue] at hgoes
        have hstops : stops c (u.sched.objs r) (m.sampledTokenIds reqId) (m.hasPoolerOutput reqId) = true := by
          refine hstep.stops_of_stopped ?_ ?_
          · rw [hdrafts]
            rfl
          · rw [hdrafts]
        have hgoes' : goesOnStopped (u.sched.objs r) = true := hgoes
        unfold parksPinned at hno
        rw [decide_eq_true hst, hgoes', hstops, Bool.true_and, Bool.true_and, Bool.true_and] at hno
        dsimp only
        rw [Function.update_self, hid]
        exact hno
      · have hstaying : u'.staying = u.staying := by
          unfold UpdateState.staying
          rw [hrun, hset]
        rw [hstaying]
        exact ho₁.keep hitems₁ (fun _ => id) (by rw [he₁]; exact .refl _)

structure Sweeping (s : Scheduler) (ids : List ReqId) (u : UpdateState) : Prop where
  known : Known u.sched
  untouched : ∀ id ∈ ids, ∀ r, u.sched.requests.get? id = some r →
    s.requests.get? id = some r ∧ u.sched.objs r = s.objs r
  unpins : Unpins s.encoderCacheManager u.sched.encoderCacheManager
  owned : u.sched.Owned u.staying

theorem Sweeping.tail {ids : List ReqId} (h : Sweeping s (reqId :: ids) u) : Sweeping s ids u where
  known := h.known
  untouched id hid := h.untouched id (List.mem_cons_of_mem reqId hid)
  unpins := h.unpins
  owned := h.owned

theorem Sweeping.step {ids : List ReqId} (h : Sweeping s (reqId :: ids) u) (hids : reqId ∉ ids)
    (hr : u.sched.requests.get? reqId = some r)
    (hno : parksPinned c s m reqId r = false)
    (hok : updateRequest c env o m u reqId r = .ok u') : Sweeping s ids u' := by
  obtain ⟨-, hobj⟩ := h.untouched reqId List.mem_cons_self r hr
  have hnow : parksPinned c u.sched m reqId r = false := by
    refine Bool.eq_false_iff.mpr fun hparks => ?_
    unfold parksPinned at hparks hno
    rw [hobj, Bool.and_eq_true] at hparks
    rw [hparks.1, Bool.true_and] at hno
    have hlater := h.unpins.isPinnedBy_false hno
    rw [hparks.2] at hlater
    cases hlater
  obtain ⟨howned, hunpins⟩ := updateRequest_owned h.owned hnow hok
  refine ⟨h.known.updateRequest hok, fun id hid x hx => ?_, h.unpins.trans hunpins, howned⟩
  have hne : id ≠ reqId := fun heq => hids (heq ▸ hid)
  obtain ⟨hx', hobj⟩ := updateRequest_others h.known hr hok hne hx
  rw [hobj]
  exact h.untouched id (List.mem_cons_of_mem reqId hid) x hx'

theorem updateRequests_sweeping {failed : List ReqId} {items : List (ReqId × Int)}
    (h : Sweeping s (items.map Prod.fst) u) (hnodup : (items.map Prod.fst).Nodup)
    (hno : ∀ id ∈ items.map Prod.fst, ∀ r, s.requests.get? id = some r → (s.objs r).isFinished = false →
      parksPinned c s m id r = false)
    (hok : updateRequests c env o m failed items u = .ok u') : Sweeping s [] u' := by
  induction items generalizing u with
  | nil =>
    cases hok
    exact h
  | cons item items ih =>
    obtain ⟨reqId, n⟩ := item
    rw [List.map_cons] at h hnodup hno
    rw [List.nodup_cons] at hnodup
    simp only [updateRequests, Result.bind_eq_ok] at hok
    obtain ⟨-, -, hok⟩ := hok
    have hrest : ∀ id ∈ items.map Prod.fst, ∀ r, s.requests.get? id = some r → (s.objs r).isFinished = false →
        parksPinned c s m id r = false := fun id hid => hno id (List.mem_cons_of_mem reqId hid)
    split at hok
    · exact ih h.tail hnodup.2 hrest hok
    · split at hok
      · exact ih h.tail hnodup.2 hrest hok
      · rename_i r hr
        split at hok
        · exact ih h.tail hnodup.2 hrest hok
        · rename_i hfin
          simp only [Result.bind_eq_ok] at hok
          obtain ⟨u₁, hu₁, hok⟩ := hok
          obtain ⟨hget, hobj⟩ := h.untouched reqId List.mem_cons_self r hr
          have hlive : (s.objs r).isFinished = false := by
            rw [← hobj]
            exact Bool.eq_false_iff.mpr hfin
          exact ih (h.step hnodup.1 hr (hno reqId List.mem_cons_self r hget hlive) hu₁) hnodup.2 hrest hok

end Update

end Scheduler

end Vllm
