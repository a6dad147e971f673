import Vllm.ScheduleMoves

namespace Vllm

namespace EncoderCacheManager

variable {e e' e'' : EncoderCacheManager} {request : Request}

structure Thinned (e e' : EncoderCacheManager) : Prop where
  same : e'.isEncoderDecoder = e.isEncoderDecoder
  cached : ∀ h, e'.cached.contains h = true → e.cached.contains h = true
  freed : ∀ h, e'.cached.contains h = true → h ∈ e'.freed → h ∈ e.freed

theorem Thinned.refl (e : EncoderCacheManager) : Thinned e e := ⟨rfl, fun _ => id, fun _ _ => id⟩

theorem Thinned.trans (h : Thinned e e') (h' : Thinned e' e'') : Thinned e e'' where
  same := h'.same.trans h.same
  cached x hx := h.cached x (h'.cached x hx)
  freed x hx hf := h.freed x (h'.cached x hx) (h'.freed x hx hf)

structure Released (e e' : EncoderCacheManager) : Prop where
  same : e'.isEncoderDecoder = e.isEncoderDecoder
  cached : ∀ h, e'.cached.contains h = true → e.cached.contains h = true
  freed : e'.freed = e.freed

theorem Released.refl (e : EncoderCacheManager) : Released e e := ⟨rfl, fun _ => id, rfl⟩

theorem Released.trans (h : Released e e') (h' : Released e' e'') : Released e e'' where
  same := h'.same.trans h.same
  cached x hx := h.cached x (h'.cached x hx)
  freed := h'.freed.trans h.freed

theorem Released.thinned (h : Released e e') : Thinned e e' :=
  ⟨h.same, h.cached, fun _ _ hf => h.freed ▸ hf⟩

theorem contains_of_get? {d : Dict String (List ReqId)} {k : String} {v : List ReqId}
    (h : d.get? k = some v) : d.contains k = true := by
  simp [Dict.contains, h]

theorem contains_set_iff {d : Dict String (List ReqId)} {k x : String} {v : List ReqId} :
    (d.set k v).contains x = true ↔ x = k ∨ d.contains x = true := by
  unfold Dict.contains
  rw [Dict.get?_set]
  split
  · rename_i h
    simp [h]
  · rename_i h
    simp [Ne.symm h]

theorem contains_erase_iff {d : Dict String (List ReqId)} {k x : String} :
    (d.erase k).contains x = true ↔ x ≠ k ∧ d.contains x = true := by
  unfold Dict.contains
  rw [Dict.get?_erase]
  split
  · rename_i h
    simp [h]
  · rename_i h
    simp [Ne.symm h]

theorem freeEncoderInput_released (e : EncoderCacheManager) (request : Request) (i : Nat) :
    Released e (e.freeEncoderInput request i) := by
  unfold freeEncoderInput
  dsimp only
  split
  · exact ⟨rfl, fun _ => id, rfl⟩
  · split
    · exact .refl e
    · rename_i feature _
      split
      · exact .refl e
      · rename_i hrefs
        have hmem : e.cached.contains feature.identifier = true := by
          cases hget : e.cached.get? feature.identifier with
          | none => simp [Dict.getD, hget] at hrefs
          | some refs => exact contains_of_get? hget
        have hcached : ∀ h, (e.cached.set feature.identifier
            ((e.cached.getD feature.identifier []).filter (· ≠ request.requestId))).contains h =
              true → e.cached.contains h = true := by
          intro h hh
          rcases contains_set_iff.mp hh with rfl | hh
          · exact hmem
          · exact hh
        split
        · exact ⟨rfl, hcached, rfl⟩
        · exact ⟨rfl, hcached, rfl⟩

theorem foldl_released {f : EncoderCacheManager → Nat → EncoderCacheManager}
    (hf : ∀ e i, Released e (f e i)) (l : List Nat) (e : EncoderCacheManager) :
    Released e (l.foldl f e) := by
  induction l generalizing e with
  | nil => exact .refl e
  | cons i l ih => exact (hf e i).trans (ih (f e i))

theorem free_released (e : EncoderCacheManager) (request : Request) :
    Released e (e.free request) :=
  foldl_released (fun e i => freeEncoderInput_released e request i) _ e

theorem checkAndUpdateCache_released {mmHash : String} {hit : Bool}
    (h : e.checkAndUpdateCache request mmHash = .ok (hit, e')) : Released e e' := by
  unfold checkAndUpdateCache at h
  split at h
  · cases h
    exact .refl e
  · have hset : ∀ refs, (∃ v, e.cached.get? mmHash = some v) → ∀ x,
        (e.cached.set mmHash refs).contains x = true → e.cached.contains x = true := by
      intro refs hv x hx
      obtain ⟨v, hv⟩ := hv
      rcases contains_set_iff.mp hx with rfl | hx
      · exact contains_of_get? hv
      · exact hx
    split at h
    · cases h
      exact .refl e
    · rename_i hget
      split at h
      · cases h
      · cases h
        exact ⟨rfl, hset _ ⟨_, hget⟩, rfl⟩
    · rename_i refs _ hget
      cases h
      exact ⟨rfl, hset _ ⟨_, hget⟩, rfl⟩

theorem evict_thinned {n : Int} {entries : List (String × Int)}
    (h : evict n entries e = .ok e') : Thinned e e' := by
  induction entries generalizing e with
  | nil =>
    unfold evict at h
    split at h
    · cases h
    · cases h
      exact .refl _
  | cons entry entries ih =>
    obtain ⟨mmHash, k⟩ := entry
    unfold evict at h
    split at h
    · split at h
      · refine Thinned.trans ?_ (ih h)
        refine ⟨rfl, fun x hx => (contains_erase_iff.mp hx).2, fun x hx hf => ?_⟩
        rcases List.mem_append.mp hf with hf | hf
        · exact hf
        · exact absurd (List.mem_singleton.mp hf) (contains_erase_iff.mp hx).1
      · cases h
    · cases h
      exact .refl _

theorem canAllocate_thinned {i : Nat} {budget n : Int} {fits : Bool}
    (h : e.canAllocate request i budget n = .ok (fits, e')) : Thinned e e' := by
  unfold canAllocate at h
  dsimp only at h
  split at h
  · cases h
    exact .refl e
  · split at h
    · cases h
      exact .refl e
    · split at h
      · cases h
        exact .refl e
      · split at h
        · cases h
          exact .refl e
        · simp only [Result.bind_eq_ok, Result.pure_eq_ok, Prod.mk.injEq] at h
          obtain ⟨e₁, he₁, -, rfl⟩ := h
          exact evict_thinned he₁

theorem allocate_eq_ok {i : Nat} (hd : e.isEncoderDecoder = false)
    (h : e.allocate request i = .ok e') :
    e'.isEncoderDecoder = false ∧ e'.freed = e.freed ∧
      ∀ x, e'.cached.contains x = true → e.cached.contains x = true ∨
        ∃ f, request.mmFeatures[i]? = some f ∧ f.identifier = x := by
  simp only [allocate, mmHash, Result.bind_eq_ok, Result.getItem_eq_ok, Result.pure_eq_ok, hd,
    Bool.false_eq_true, if_false] at h
  obtain ⟨hash, ⟨f, hf, rfl⟩, -, -, -, -, rfl⟩ := h
  refine ⟨rfl, rfl, fun x hx => ?_⟩
  rcases contains_set_iff.mp hx with rfl | hx
  · exact .inr ⟨f, hf, rfl⟩
  · exact .inl hx

end EncoderCacheManager

open EncoderCacheManager

namespace EncoderPlan

variable {c : SchedulerConfig} {request : Request} {a b : Int} {f : MultiModalFeatureSpec} {i : Nat}
  {plan plan' : EncoderPlan} {goOn : Bool}

theorem addItem_laws (hext : plan.externalLoadEncoderInput = [])
    (h : addItem c (fun _ => false) request a b f i plan = .ok (goOn, plan')) :
    Thinned plan.encoder plan'.encoder ∧ plan'.externalLoadEncoderInput = [] := by
  unfold addItem at h
  dsimp only at h
  split at h
  · cases h
    exact ⟨.refl _, hext⟩
  · simp only [Result.bind_eq_ok, Prod.exists] at h
    obtain ⟨fits, e, he, h⟩ := h
    have hthin := canAllocate_thinned he
    split at h
    · cases h
      exact ⟨hthin, hext⟩
    · split at h
      · cases h
      · split at h
        · cases h
          exact ⟨hthin, hext⟩
        · simp only [Bool.false_eq_true, if_false, Result.pure_eq_ok, Prod.mk.injEq] at h
          obtain ⟨-, rfl⟩ := h
          exact ⟨hthin, hext⟩

theorem visitItem_laws (hext : plan.externalLoadEncoderInput = [])
    (h : visitItem c (fun _ => false) request a b f i plan = .ok (goOn, plan')) :
    Thinned plan.encoder plan'.encoder ∧ plan'.externalLoadEncoderInput = [] := by
  unfold visitItem at h
  dsimp only at h
  split at h
  · cases h
    exact ⟨.refl _, hext⟩
  · split at h
    · simp only [Result.bind_eq_ok, Result.pure_eq_ok, Prod.mk.injEq] at h
      obtain ⟨-, -, -, rfl⟩ := h
      exact ⟨.refl _, hext⟩
    · split at h
      · cases h
        exact ⟨.refl _, hext⟩
      · split at h
        · cases h
          exact ⟨.refl _, hext⟩
        · simp only [Result.bind_eq_ok, Prod.exists] at h
          obtain ⟨hit, e, he, h⟩ := h
          have hreleased := (checkAndUpdateCache_released he).thinned
          split at h
          · cases h
            exact ⟨hreleased, hext⟩
          · refine (addItem_laws ?_ h).imp (fun hthin => hreleased.trans hthin) id
            exact hext

theorem visitItems_laws {items : List MultiModalFeatureSpec}
    (hext : plan.externalLoadEncoderInput = [])
    (h : visitItems c (fun _ => false) request a b items i plan = .ok plan') :
    Thinned plan.encoder plan'.encoder ∧ plan'.externalLoadEncoderInput = [] := by
  induction items generalizing i plan with
  | nil =>
    cases h
    exact ⟨.refl _, hext⟩
  | cons f items ih =>
    simp only [visitItems, Result.bind_eq_ok, Prod.exists] at h
    obtain ⟨goOn, plan₁, hvisit, h⟩ := h
    obtain ⟨hthin, hext₁⟩ := visitItem_laws hext hvisit
    split at h
    · exact (ih hext₁ h).imp (fun hrest => hthin.trans hrest) id
    · cases h
      exact ⟨hthin, hext₁⟩

end EncoderPlan

theorem Scheduler.tryScheduleEncoderInputs_laws {c : SchedulerConfig} {env : Outside}
    {s : Scheduler} {request : Request} {a n budget : Int} {plan : EncoderPlan}
    (henv : env.hasCacheItem = fun _ => false)
    (h : tryScheduleEncoderInputs c env s request a n budget = .ok plan) :
    Thinned s.encoderCacheManager plan.encoder ∧ plan.externalLoadEncoderInput = [] := by
  unfold tryScheduleEncoderInputs at h
  dsimp only at h
  split at h
  · cases h
    exact ⟨.refl _, rfl⟩
  · rw [henv] at h
    exact EncoderPlan.visitItems_laws rfl h

theorem Step.allocateEncoder_eq_ok {request : Request} {inputs : List Nat}
    {e e' : EncoderCacheManager} (hd : e.isEncoderDecoder = false)
    (h : allocateEncoder request inputs e = .ok e') :
    e'.isEncoderDecoder = false ∧ e'.freed = e.freed ∧
      ∀ x, e'.cached.contains x = true → e.cached.contains x = true ∨
        ∃ i ∈ inputs, ∃ f, request.mmFeatures[i]? = some f ∧ f.identifier = x := by
  induction inputs generalizing e with
  | nil =>
    cases h
    exact ⟨hd, rfl, fun x hx => .inl hx⟩
  | cons i inputs ih =>
    simp only [allocateEncoder, Result.bind_eq_ok] at h
    obtain ⟨e₁, he₁, h⟩ := h
    obtain ⟨hd₁, hfreed₁, hcached₁⟩ := allocate_eq_ok hd he₁
    obtain ⟨hd', hfreed, hcached⟩ := ih hd₁ h
    refine ⟨hd', hfreed.trans hfreed₁, fun x hx => ?_⟩
    rcases hcached x hx with hx | ⟨j, hj, f, hf, hid⟩
    · rcases hcached₁ x hx with hx | ⟨f, hf, hid⟩
      · exact .inl hx
      · exact .inr ⟨i, List.mem_cons_self, f, hf, hid⟩
    · exact .inr ⟨j, List.mem_cons_of_mem i hj, f, hf, hid⟩

end Vllm
