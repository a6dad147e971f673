import Vllm.QueueUpdate

namespace Vllm

namespace Scheduler

variable {c : SchedulerConfig} {env : Outside} {s s' : Scheduler} {u u' : UpdateState}
  {o : SchedulerOutput} {m : ModelRunnerOutput} {reqId : ReqId} {r : Ref}

def Known (s : Scheduler) : Prop := ∀ id r, s.requests.get? id = some r → (s.objs r).requestId = id

theorem updateRequest_requests (h : updateRequest c env o m u reqId r = .ok u') :
    (u'.sched.requests = u.sched.requests ∨
      u'.sched.requests = u.sched.requests.erase (u.sched.objs r).requestId) ∧
    u.outputs <+: u'.outputs := by
  obtain ⟨kept, stopped, q, kv, hstep, -, hout, hcase⟩ := updateRequest_eq_ok h
  obtain ⟨computed, placeholders, hdrafts⟩ := afterDrafts_frame o m reqId (u.sched.objs r)
  obtain ⟨hid, -, -, hstatus⟩ := hstep.frame
  rw [hdrafts] at hid
  refine ⟨?_, ?_⟩
  · rcases hcase with ⟨-, hsched, -⟩ | ⟨rfl, hsettled, -⟩
    · exact .inl (by rw [hsched])
    · have hfin : q.isFinished = true := by
        rcases hstatus with ⟨h, -⟩ | ⟨-, h⟩
        · cases h
        · exact h
      have hobjq : ({ u.sched with
          objs := Function.update u.sched.objs r q, kvCacheManager := kv } : Scheduler).objs r = q :=
        Function.update_self ..
      obtain ⟨q', -, -, -, -, hwhere⟩ := hsettled.cases (by rw [hobjq]; exact hfin)
      rw [hobjq, hid] at hwhere
      rcases hwhere with ⟨-, -, -, hreq⟩ | ⟨-, -, -, -, -, hreq⟩ | ⟨-, -, -, hreq⟩
      · exact hreq
      · exact .inl hreq
      · exact .inl hreq
  · rcases hout with ⟨-, hout⟩ | ⟨out, -, -, hout⟩
    · rw [hout]
    · rw [hout]
      exact List.prefix_append _ _

theorem get?_of_updateRequest (h : updateRequest c env o m u reqId r = .ok u') {id : ReqId} {x : Ref}
    (hx : u'.sched.requests.get? id = some x) : u.sched.requests.get? id = some x := by
  rcases (updateRequest_requests h).1 with hreq | hreq
  · rw [hreq] at hx
    exact hx
  · rw [hreq] at hx
    exact Dict.get?_of_erase hx

theorem Known.updateRequest (hk : Known u.sched) (h : updateRequest c env o m u reqId r = .ok u') :
    Known u'.sched := by
  obtain ⟨⟨q, hobjs, hqid⟩, -⟩ := updateRequest_frame h
  intro id x hx
  have hx' := get?_of_updateRequest h hx
  rw [hobjs]
  by_cases hxr : x = r
  · subst hxr
    rw [Function.update_self, hqid]
    exact hk id x hx'
  · rw [Function.update_of_ne hxr]
    exact hk id x hx'

theorem updateRequest_others (hk : Known u.sched) (hr : u.sched.requests.get? reqId = some r)
    (h : updateRequest c env o m u reqId r = .ok u') {id : ReqId} (hne : id ≠ reqId) {x : Ref}
    (hx : u'.sched.requests.get? id = some x) :
    u.sched.requests.get? id = some x ∧ u'.sched.objs x = u.sched.objs x := by
  obtain ⟨⟨q, hobjs, -⟩, -⟩ := updateRequest_frame h
  have hx' := get?_of_updateRequest h hx
  refine ⟨hx', ?_⟩
  rw [hobjs, Function.update_of_ne]
  rintro rfl
  exact hne ((hk id x hx').symm.trans (hk reqId x hr))

def Visit (c : SchedulerConfig) (env : Outside) (o : SchedulerOutput) (m : ModelRunnerOutput)
    (u u' : UpdateState) (reqId : ReqId) (r : Ref) : Prop :=
  ∃ u₁ u₂, updateRequest c env o m u₁ reqId r = .ok u₂ ∧
    u₁.sched.objs r = u.sched.objs r ∧ u'.sched.objs r = u₂.sched.objs r ∧
    u₁.sched.requests.get? reqId = some r ∧
    u'.sched.requests.get? reqId = u₂.sched.requests.get? reqId ∧ u₂.outputs <+: u'.outputs

structure Looped (c : SchedulerConfig) (env : Outside) (o : SchedulerOutput) (m : ModelRunnerOutput)
    (failed ids : List ReqId) (u u' : UpdateState) : Prop where
  outputs : u.outputs <+: u'.outputs
  requests : ∀ id ∉ ids, u'.sched.requests.get? id = u.sched.requests.get? id
  objs : ∀ r, (∀ id ∈ ids, u.sched.requests.get? id ≠ some r) → u'.sched.objs r = u.sched.objs r
  absent : ∀ id ∈ ids, u.sched.requests.get? id = none → u'.sched.requests.get? id = none
  skipped : ∀ id ∈ ids, ∀ r, u.sched.requests.get? id = some r →
    id ∈ failed ∨ (u.sched.objs r).isFinished = true →
    u'.sched.objs r = u.sched.objs r ∧ u'.sched.requests.get? id = some r
  visited : ∀ id ∈ ids, ∀ r, u.sched.requests.get? id = some r → id ∉ failed →
    (u.sched.objs r).isFinished = false → Visit c env o m u u' id r

theorem Looped.skip {failed ids : List ReqId} (h : Looped c env o m failed ids u u')
    (hids : reqId ∉ ids) (hknown : Known u.sched)
    (hskip : ∀ r, u.sched.requests.get? reqId = some r →
      reqId ∈ failed ∨ (u.sched.objs r).isFinished = true) :
    Looped c env o m failed (reqId :: ids) u u' where
  outputs := h.outputs
  requests id hid := h.requests id fun hmem => hid (List.mem_cons_of_mem reqId hmem)
  objs r hr := h.objs r fun id hid => hr id (List.mem_cons_of_mem reqId hid)
  absent id hid hnone := by
    rcases List.mem_cons.mp hid with rfl | hid
    · rw [h.requests id hids]
      exact hnone
    · exact h.absent id hid hnone
  skipped id hid r hr hcase := by
    rcases List.mem_cons.mp hid with rfl | hid
    · refine ⟨h.objs r fun id' hid' hr' => ?_, (h.requests id hids).trans hr⟩
      have heq : id' = id := (hknown id' r hr').symm.trans (hknown id r hr)
      exact hids (heq ▸ hid')
    · exact h.skipped id hid r hr hcase
  visited id hid r hr hnf hf := by
    rcases List.mem_cons.mp hid with rfl | hid
    · rcases hskip r hr with h | h
      · exact absurd h hnf
      · rw [hf] at h
        cases h
    · exact h.visited id hid r hr hnf hf

theorem Looped.visit {failed ids : List ReqId} {u₁ : UpdateState} (hids : reqId ∉ ids)
    (hknown : Known u.sched) (hr : u.sched.requests.get? reqId = some r)
    (hnf : reqId ∉ failed) (hf : (u.sched.objs r).isFinished = false)
    (hu₁ : updateRequest c env o m u reqId r = .ok u₁) (h : Looped c env o m failed ids u₁ u') :
    Looped c env o m failed (reqId :: ids) u u' := by
  obtain ⟨⟨q, hobjs, hqid⟩, -⟩ := updateRequest_frame hu₁
  obtain ⟨hreq, hout⟩ := updateRequest_requests hu₁
  have hknown₁ := hknown.updateRequest hu₁
  have hother : ∀ id, id ≠ reqId → u₁.sched.requests.get? id = u.sched.requests.get? id := by
    intro id hne
    rcases hreq with hreq | hreq
    · rw [hreq]
    · rw [hreq, Dict.get?_erase, hknown reqId r hr, if_neg (Ne.symm hne)]
  have hsub : ∀ id x, u₁.sched.requests.get? id = some x → u.sched.requests.get? id = some x := by
    intro id x hx
    rcases hreq with hreq | hreq
    · rw [hreq] at hx
      exact hx
    · rw [hreq] at hx
      exact Dict.get?_of_erase hx
  have hne : ∀ id ∈ ids, id ≠ reqId := fun id hid heq => hids (heq ▸ hid)
  have hobj : ∀ id x, id ≠ reqId → u.sched.requests.get? id = some x →
      u₁.sched.objs x = u.sched.objs x := by
    intro id x hne hx
    rw [hobjs, Function.update_of_ne]
    rintro rfl
    exact hne ((hknown id x hx).symm.trans (hknown reqId x hr))
  refine ⟨hout.trans h.outputs, fun id hid => ?_, fun x hx => ?_, fun id hid hnone => ?_,
    fun id hid x hx hcase => ?_, fun id hid x hx hnf' hf' => ?_⟩
  · rw [List.mem_cons, not_or] at hid
    rw [h.requests id hid.2, hother id hid.1]
  · have hxr : x ≠ r := fun heq => hx reqId List.mem_cons_self (heq ▸ hr)
    rw [h.objs x fun id hid hid' => hx id (List.mem_cons_of_mem reqId hid) (hsub id x hid'), hobjs,
      Function.update_of_ne hxr]
  · rcases List.mem_cons.mp hid with rfl | hid
    · rw [hr] at hnone
      cases hnone
    · exact h.absent id hid (by rw [hother id (hne id hid)]; exact hnone)
  · rcases List.mem_cons.mp hid with rfl | hid
    · obtain rfl := Option.some.inj (hx.symm.trans hr)
      rcases hcase with hcase | hcase
      · exact absurd hcase hnf
      · rw [hf] at hcase
        cases hcase
    · have hx₁ : u₁.sched.requests.get? id = some x := by rw [hother id (hne id hid)]; exact hx
      have hobj₁ := hobj id x (hne id hid) hx
      obtain ⟨ho, hg⟩ := h.skipped id hid x hx₁ (by rw [hobj₁]; exact hcase)
      exact ⟨ho.trans hobj₁, hg⟩
  · rcases List.mem_cons.mp hid with rfl | hid
    · obtain rfl := Option.some.inj (hx.symm.trans hr)
      refine ⟨u, u₁, hu₁, rfl, h.objs x fun id' hid' hx' => ?_, hr, h.requests id hids, h.outputs⟩
      exact hne id' hid' ((hknown id' x (hsub id' x hx')).symm.trans (hknown id x hr))
    · have hx₁ : u₁.sched.requests.get? id = some x := by rw [hother id (hne id hid)]; exact hx
      have hobj₁ := hobj id x (hne id hid) hx
      obtain ⟨v, v', hv, ho, ho', hg, hg', hout'⟩ :=
        h.visited id hid x hx₁ hnf' (by rw [hobj₁]; exact hf')
      exact ⟨v, v', hv, ho.trans hobj₁, ho', hg, hg', hout'⟩

theorem updateRequests_looped {failed : List ReqId} {items : List (ReqId × Int)}
    (hknown : Known u.sched) (hnodup : (items.map Prod.fst).Nodup)
    (h : updateRequests c env o m failed items u = .ok u') :
    Looped c env o m failed (items.map Prod.fst) u u' := by
  induction items generalizing u with
  | nil =>
    cases h
    exact ⟨List.prefix_refl _, fun _ _ => rfl, fun _ _ => rfl, fun _ h => absurd h List.not_mem_nil,
      fun _ h => absurd h List.not_mem_nil, fun _ h => absurd h List.not_mem_nil⟩
  | cons item items ih =>
    obtain ⟨reqId, n⟩ := item
    rw [List.map_cons, List.nodup_cons] at hnodup
    rw [List.map_cons]
    simp only [updateRequests, Result.bind_eq_ok] at h
    obtain ⟨-, -, h⟩ := h
    split at h
    · rename_i hfailed
      exact (ih hknown hnodup.2 h).skip hnodup.1 hknown fun _ _ => .inl hfailed
    · rename_i hnf
      split at h
      · rename_i hnone
        refine (ih hknown hnodup.2 h).skip hnodup.1 hknown fun r hr => ?_
        rw [hnone] at hr
        cases hr
      · rename_i r hr
        split at h
        · rename_i hf
          refine (ih hknown hnodup.2 h).skip hnodup.1 hknown fun x hx => .inr ?_
          obtain rfl := Option.some.inj (hx.symm.trans hr)
          exact hf
        · rename_i hf
          simp only [Result.bind_eq_ok] at h
          obtain ⟨u₁, hu₁, h⟩ := h
          exact (ih (hknown.updateRequest hu₁) hnodup.2 h).visit hnodup.1 hknown hr hnf
            (by simpa using hf) hu₁

end Scheduler

end Vllm
