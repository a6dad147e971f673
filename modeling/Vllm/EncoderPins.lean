import Vllm.EncoderAgreement

namespace Vllm

def Request.mmHashes (q : Request) : List String := q.mmFeatures.map MultiModalFeatureSpec.identifier

namespace EncoderCacheManager

variable {e e' e'' : EncoderCacheManager} {request : Request} {h hash : String} {id : ReqId} {i : Nat}

def Pins (e : EncoderCacheManager) (h : String) (id : ReqId) : Prop :=
  ∃ refs, e.cached.get? h = some refs ∧ id ∈ refs

def isPinnedBy (e : EncoderCacheManager) (id : ReqId) : Bool := e.cached.items.any fun entry => entry.2.contains id

structure PinsFor (request : Request) (e e' : EncoderCacheManager) : Prop where
  same : e'.isEncoderDecoder = e.isEncoderDecoder
  pins : ∀ h id, e'.Pins h id → e.Pins h id ∨ (id = request.requestId ∧ h ∈ request.mmHashes)

structure Unpins (e e' : EncoderCacheManager) : Prop where
  same : e'.isEncoderDecoder = e.isEncoderDecoder
  pins : ∀ h id, e'.Pins h id → e.Pins h id

theorem Unpins.refl (e : EncoderCacheManager) : Unpins e e := ⟨rfl, fun _ _ => id⟩

theorem Unpins.trans (h : Unpins e e') (h' : Unpins e' e'') : Unpins e e'' :=
  ⟨h'.same.trans h.same, fun x id hp => h.pins x id (h'.pins x id hp)⟩

theorem Unpins.pinsFor (h : Unpins e e') (request : Request) : PinsFor request e e' :=
  ⟨h.same, fun x id hp => .inl (h.pins x id hp)⟩

theorem PinsFor.trans (h : PinsFor request e e') (h' : PinsFor request e' e'') : PinsFor request e e'' := by
  refine ⟨h'.same.trans h.same, fun x id hp => ?_⟩
  rcases h'.pins x id hp with hp | hnew
  · exact h.pins x id hp
  · exact .inr hnew

theorem isPinnedBy_of_pins (hp : e.Pins h id) : e.isPinnedBy id = true := by
  obtain ⟨refs, hget, hmem⟩ := hp
  exact List.any_eq_true.mpr ⟨(h, refs), Dict.get?_eq_some.mp hget, List.contains_iff_mem.mpr hmem⟩

theorem pins_set {refs : List ReqId} (hp : ∃ refs', (e.cached.set hash refs).get? h = some refs' ∧ id ∈ refs') :
    (hash = h ∧ id ∈ refs) ∨ (hash ≠ h ∧ e.Pins h id) := by
  obtain ⟨refs', hget, hmem⟩ := hp
  rw [Dict.get?_set] at hget
  split at hget
  · rename_i heq
    obtain rfl := Option.some_inj.mp hget
    exact .inl ⟨heq, hmem⟩
  · rename_i hne
    exact .inr ⟨hne, refs', hget, hmem⟩

theorem mem_mmHashes {f : MultiModalFeatureSpec} (hf : request.mmFeatures[i]? = some f) :
    f.identifier ∈ request.mmHashes :=
  List.mem_map.mpr ⟨f, List.mem_of_getElem? hf, rfl⟩

theorem freeEncoderInput_pins (hd : e.isEncoderDecoder = false) (hp : (e.freeEncoderInput request i).Pins h id) :
    e.Pins h id ∧
      (id = request.requestId → ∀ f, request.mmFeatures[i]? = some f → f.identifier ≠ h) := by
  unfold freeEncoderInput at hp
  dsimp only at hp
  rw [if_neg (Bool.eq_false_iff.mp hd)] at hp
  split at hp
  · rename_i hnone
    refine ⟨hp, fun _ f hf => ?_⟩
    rw [hnone] at hf
    cases hf
  · rename_i f hf
    have hfeature : ∀ f', request.mmFeatures[i]? = some f' → f' = f := fun f' hf' =>
      Option.some_inj.mp (hf'.symm.trans hf)
    split at hp
    · rename_i hnil
      refine ⟨hp, fun _ f' hf' heq => ?_⟩
      obtain rfl := hfeature f' hf'
      subst heq
      obtain ⟨refs, hget, hmem⟩ := hp
      rw [Dict.getD, hget, Option.getD_some] at hnil
      rw [hnil] at hmem
      cases hmem
    · have hset : ∃ refs', (e.cached.set f.identifier
          ((e.cached.getD f.identifier []).filter (· ≠ request.requestId))).get? h = some refs' ∧ id ∈ refs' := by
        split at hp
        · exact hp
        · exact hp
      rcases pins_set hset with ⟨rfl, hmem⟩ | ⟨hne, hp⟩
      · rw [List.mem_filter] at hmem
        refine ⟨?_, fun heq => absurd heq (of_decide_eq_true hmem.2)⟩
        cases hget : e.cached.get? f.identifier with
        | none =>
          rw [Dict.getD, hget] at hmem
          cases hmem.1
        | some refs =>
          rw [Dict.getD, hget] at hmem
          exact ⟨refs, hget, hmem.1⟩
      · refine ⟨hp, fun _ f' hf' => ?_⟩
        obtain rfl := hfeature f' hf'
        exact hne

theorem freeEncoderInput_unpins (e : EncoderCacheManager) (request : Request) (i : Nat) :
    Unpins e (e.freeEncoderInput request i) := by
  refine ⟨(freeEncoderInput_released e request i).same, fun h id hp => ?_⟩
  cases hd : e.isEncoderDecoder with
  | false => exact (freeEncoderInput_pins hd hp).1
  | true =>
    unfold freeEncoderInput at hp
    rw [if_pos hd] at hp
    exact hp

theorem foldl_unpins {f : EncoderCacheManager → Nat → EncoderCacheManager} (hf : ∀ e i, Unpins e (f e i))
    (l : List Nat) (e : EncoderCacheManager) : Unpins e (l.foldl f e) := by
  induction l generalizing e with
  | nil => exact .refl e
  | cons i l ih => exact (hf e i).trans (ih (f e i))

theorem free_pins (hd : e.isEncoderDecoder = false) (hp : (e.free request).Pins h id) :
    e.Pins h id ∧ (id = request.requestId → h ∉ request.mmHashes) := by
  have hfold : ∀ (l : List Nat) (e : EncoderCacheManager), e.isEncoderDecoder = false →
      (l.foldl (fun e i => e.freeEncoderInput request i) e).Pins h id →
      e.Pins h id ∧ (id = request.requestId →
        ∀ i ∈ l, ∀ f, request.mmFeatures[i]? = some f → f.identifier ≠ h) := by
    intro l
    induction l with
    | nil => exact fun e _ hp => ⟨hp, fun _ i hi => absurd hi List.not_mem_nil⟩
    | cons i l ih =>
      intro e hd hp
      obtain ⟨hp₁, hrest⟩ := ih _ ((freeEncoderInput_released e request i).same.trans hd) hp
      obtain ⟨hp, hfirst⟩ := freeEncoderInput_pins hd hp₁
      refine ⟨hp, fun heq j hj => ?_⟩
      rcases List.mem_cons.mp hj with rfl | hj
      · exact hfirst heq
      · exact hrest heq j hj
  obtain ⟨hpins, hnone⟩ := hfold _ e hd hp
  refine ⟨hpins, fun heq hmem => ?_⟩
  obtain ⟨f, hf, rfl⟩ := List.mem_map.mp hmem
  obtain ⟨i, hi⟩ := List.getElem?_of_mem hf
  refine hnone heq i ?_ f hi rfl
  obtain ⟨refs, hget, -⟩ := hpins
  unfold getCachedInputIds
  rw [if_neg (Bool.eq_false_iff.mp hd), List.mem_filter, hi]
  refine ⟨List.mem_range.mpr ?_, contains_of_get? hget⟩
  exact (List.getElem?_eq_some_iff.mp hi).1

theorem checkAndUpdateCache_pinsFor {hit : Bool} (hok : e.checkAndUpdateCache request hash = .ok (hit, e'))
    (hhash : hash ∈ request.mmHashes) : PinsFor request e e' := by
  unfold checkAndUpdateCache at hok
  split at hok
  · cases hok
    exact (Unpins.refl e).pinsFor request
  · have hset : ∀ {refs refs' : List ReqId} {x id}, e.cached.get? hash = some refs →
        (∀ id ∈ refs', id = request.requestId ∨ id ∈ refs) →
        (∃ refs₁, (e.cached.set hash refs').get? x = some refs₁ ∧ id ∈ refs₁) →
        e.Pins x id ∨ (id = request.requestId ∧ x ∈ request.mmHashes) := by
      intro refs refs' x id hget hrefs hp
      rcases pins_set hp with ⟨rfl, hmem⟩ | ⟨-, hp⟩
      · rcases hrefs id hmem with heq | hmem
        · exact .inr ⟨heq, hhash⟩
        · exact .inl ⟨refs, hget, hmem⟩
      · exact .inl hp
    split at hok
    · cases hok
      exact (Unpins.refl e).pinsFor request
    · rename_i hget
      split at hok
      · cases hok
      · cases hok
        refine ⟨rfl, fun x id hp => hset hget (fun id hid => ?_) hp⟩
        exact .inl (List.mem_singleton.mp hid)
    · rename_i refs _ hget
      cases hok
      exact ⟨rfl, fun x id hp => hset hget (fun id hid => List.mem_insert_iff.mp hid) hp⟩

theorem evict_unpins {n : Int} {entries : List (String × Int)} (hok : evict n entries e = .ok e') :
    Unpins e e' := by
  induction entries generalizing e with
  | nil =>
    unfold evict at hok
    split at hok
    · cases hok
    · cases hok
      exact .refl _
  | cons entry entries ih =>
    obtain ⟨hash, k⟩ := entry
    unfold evict at hok
    split at hok
    · split at hok
      · refine Unpins.trans ?_ (ih hok)
        refine ⟨rfl, fun x id hp => ?_⟩
        obtain ⟨refs, hget, hmem⟩ := hp
        dsimp only at hget
        exact ⟨refs, Dict.get?_of_erase hget, hmem⟩
      · cases hok
    · cases hok
      exact .refl _

theorem canAllocate_unpins {budget n : Int} {fits : Bool} (hok : e.canAllocate request i budget n = .ok (fits, e')) :
    Unpins e e' := by
  unfold canAllocate at hok
  dsimp only at hok
  split at hok
  · cases hok
    exact .refl e
  · split at hok
    · cases hok
      exact .refl e
    · split at hok
      · cases hok
        exact .refl e
      · split at hok
        · cases hok
          exact .refl e
        · simp only [Result.bind_eq_ok, Result.pure_eq_ok, Prod.mk.injEq] at hok
          obtain ⟨e₁, he₁, -, rfl⟩ := hok
          exact evict_unpins he₁

theorem allocate_pinsFor (hok : e.allocate request i = .ok e') : PinsFor request e e' := by
  simp only [allocate, mmHash, Result.bind_eq_ok, Result.getItem_eq_ok, Result.pure_eq_ok] at hok
  obtain ⟨hash, ⟨f, hf, rfl⟩, hok⟩ := hok
  split at hok
  · cases hok
    exact ⟨rfl, fun x id hp => .inl hp⟩
  · simp only [Result.bind_eq_ok, Result.pure_eq_ok] at hok
    obtain ⟨-, -, -, -, rfl⟩ := hok
    refine ⟨rfl, fun x id hp => ?_⟩
    rcases pins_set hp with ⟨rfl, hmem⟩ | ⟨-, hp⟩
    · rcases List.mem_insert_iff.mp hmem with rfl | hmem
      · exact .inr ⟨rfl, mem_mmHashes hf⟩
      · cases hget : e.cached.get? f.identifier with
        | none =>
          rw [Dict.getD, hget] at hmem
          cases hmem
        | some refs =>
          rw [Dict.getD, hget] at hmem
          exact .inl ⟨refs, hget, hmem⟩
    · exact .inl hp

theorem getFreedMmHashes_unpins (e : EncoderCacheManager) : Unpins e e.getFreedMmHashes.2 := by
  unfold getFreedMmHashes
  split
  · exact ⟨rfl, fun _ _ hp => hp⟩
  · exact ⟨rfl, fun _ _ hp => hp⟩

end EncoderCacheManager

open EncoderCacheManager

namespace EncoderPlan

variable {c : SchedulerConfig} {hasCacheItem : String → Bool} {request : Request} {a b : Int}
  {f : MultiModalFeatureSpec} {i : Nat} {plan plan' : EncoderPlan} {goOn : Bool}

theorem addItem_unpins (hok : addItem c hasCacheItem request a b f i plan = .ok (goOn, plan')) :
    Unpins plan.encoder plan'.encoder := by
  unfold addItem at hok
  dsimp only at hok
  split at hok
  · cases hok
    exact .refl _
  · simp only [Result.bind_eq_ok, Prod.exists] at hok
    obtain ⟨fits, e, he, hok⟩ := hok
    have hunpins := canAllocate_unpins he
    split at hok
    · cases hok
      exact hunpins
    · split at hok
      · cases hok
      · split at hok
        · cases hok
          exact hunpins
        · split at hok
          · cases hok
            exact hunpins
          · cases hok
            exact hunpins

theorem visitItem_pinsFor (hf : f ∈ request.mmFeatures)
    (hok : visitItem c hasCacheItem request a b f i plan = .ok (goOn, plan')) :
    PinsFor request plan.encoder plan'.encoder := by
  unfold visitItem at hok
  dsimp only at hok
  split at hok
  · cases hok
    exact (Unpins.refl _).pinsFor request
  · split at hok
    · simp only [Result.bind_eq_ok, Result.pure_eq_ok, Prod.mk.injEq] at hok
      obtain ⟨-, -, -, rfl⟩ := hok
      exact (Unpins.refl _).pinsFor request
    · split at hok
      · cases hok
        exact (Unpins.refl _).pinsFor request
      · split at hok
        · cases hok
          exact (Unpins.refl _).pinsFor request
        · simp only [Result.bind_eq_ok, Prod.exists] at hok
          obtain ⟨hit, e, he, hok⟩ := hok
          have hpins := checkAndUpdateCache_pinsFor he (List.mem_map.mpr ⟨f, hf, rfl⟩)
          split at hok
          · cases hok
            exact hpins
          · have hunpins : Unpins e plan'.encoder := addItem_unpins hok
            exact hpins.trans (hunpins.pinsFor request)

theorem visitItems_pinsFor {items : List MultiModalFeatureSpec} (hitems : ∀ f ∈ items, f ∈ request.mmFeatures)
    (hok : visitItems c hasCacheItem request a b items i plan = .ok plan') :
    PinsFor request plan.encoder plan'.encoder := by
  induction items generalizing i plan with
  | nil =>
    cases hok
    exact (Unpins.refl _).pinsFor request
  | cons f items ih =>
    obtain ⟨hf, hitems⟩ := List.forall_mem_cons.mp hitems
    simp only [visitItems, Result.bind_eq_ok, Prod.exists] at hok
    obtain ⟨goOn, plan₁, hvisit, hok⟩ := hok
    have hfirst := visitItem_pinsFor hf hvisit
    split at hok
    · exact hfirst.trans (ih hitems hok)
    · cases hok
      exact hfirst

end EncoderPlan

theorem Scheduler.tryScheduleEncoderInputs_pinsFor {c : SchedulerConfig} {env : Outside} {s : Scheduler}
    {request : Request} {a n budget : Int} {plan : EncoderPlan}
    (hok : tryScheduleEncoderInputs c env s request a n budget = .ok plan) :
    PinsFor request s.encoderCacheManager plan.encoder := by
  unfold tryScheduleEncoderInputs at hok
  dsimp only at hok
  split at hok
  · cases hok
    exact (Unpins.refl _).pinsFor request
  · exact EncoderPlan.visitItems_pinsFor (fun f hf => hf) hok

theorem Step.allocateEncoder_pinsFor {request : Request} {inputs : List Nat} {e e' : EncoderCacheManager}
    (hok : allocateEncoder request inputs e = .ok e') : PinsFor request e e' := by
  induction inputs generalizing e with
  | nil =>
    cases hok
    exact (Unpins.refl _).pinsFor request
  | cons i inputs ih =>
    simp only [allocateEncoder, Result.bind_eq_ok] at hok
    obtain ⟨e₁, he₁, hok⟩ := hok
    exact (allocate_pinsFor he₁).trans (ih hok)

end Vllm
