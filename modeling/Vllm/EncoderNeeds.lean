import Vllm.EncoderCacheLaws
import Vllm.GatherEmbeddings

namespace Vllm

namespace EncoderCacheManager

variable {e e' : EncoderCacheManager} {request : Request} {hash h : String} {i : Nat} {n budget : Int}
  {hit fits : Bool}

def EvictsUnpinned (e : EncoderCacheManager) : Prop :=
  ∀ h n, e.freeable.get? h = some n → e.cached.get? h = some []

structure Pinned (e : EncoderCacheManager) (h : String) : Prop where
  cached : e.cached.contains h = true
  freeable : e.freeable.get? h = none

/-- What one call does to the entries that may be evicted. -/
structure Holds (e e' : EncoderCacheManager) : Prop where
  unpinned : e'.EvictsUnpinned
  pinned : ∀ h, e.Pinned h → e'.Pinned h
  thinned : Thinned e e'

theorem EvictsUnpinned.refl (he : e.EvictsUnpinned) : Holds e e := ⟨he, fun _ => id, .refl e⟩

theorem Holds.trans {e₁ : EncoderCacheManager} (h : Holds e e₁) (h' : Holds e₁ e') : Holds e e' :=
  ⟨h'.unpinned, fun x hx => h'.pinned x (h.pinned x hx), h.thinned.trans h'.thinned⟩

theorem checkAndUpdateCache_holds (he : e.EvictsUnpinned) (hd : e.isEncoderDecoder = false)
    (hok : e.checkAndUpdateCache request hash = .ok (hit, e')) :
    Holds e e' ∧ if hit then e'.Pinned hash else e' = e ∧ e.cached.contains hash = false := by
  have hthinned := (checkAndUpdateCache_released hok).thinned
  unfold checkAndUpdateCache at hok
  rw [hd, if_neg Bool.false_ne_true] at hok
  cases hget : e.cached.get? hash with
  | none =>
    rw [hget] at hok
    cases hok
    exact ⟨he.refl, rfl, by simp [Dict.contains, hget]⟩
  | some refs =>
    rw [hget] at hok
    cases refs with
    | nil =>
      dsimp only at hok
      split at hok
      · cases hok
      · cases hok
        have hother : ∀ x, ((e.freeable.erase hash).get? x ≠ none → x ≠ hash) := by
          intro x hx hxh
          rw [hxh, Dict.get?_erase, if_pos rfl] at hx
          exact hx rfl
        refine ⟨⟨fun x m hx => ?_, fun x hx => ?_, hthinned⟩, contains_set_iff.mpr (.inl rfl), ?_⟩
        · have hne : x ≠ hash := hother x (by simp [hx])
          rw [Dict.get?_erase, if_neg (Ne.symm hne)] at hx
          show (e.cached.set hash [request.requestId]).get? x = some []
          rw [Dict.get?_set, if_neg (Ne.symm hne)]
          exact he x m hx
        · refine ⟨contains_set_iff.mpr (.inr hx.cached), ?_⟩
          show (e.freeable.erase hash).get? x = none
          rw [Dict.get?_erase]
          split
          · rfl
          · exact hx.freeable
        · show (e.freeable.erase hash).get? hash = none
          rw [Dict.get?_erase, if_pos rfl]
    | cons ref refs =>
      cases hok
      have hfree : e.freeable.get? hash = none := by
        cases hfree : e.freeable.get? hash with
        | none => rfl
        | some m =>
          rw [he hash m hfree] at hget
          cases hget
      refine ⟨⟨fun x m hx => ?_, fun x hx => ⟨contains_set_iff.mpr (.inr hx.cached), hx.freeable⟩, hthinned⟩,
        contains_set_iff.mpr (.inl rfl), hfree⟩
      have hne : x ≠ hash := by
        rintro rfl
        change e.freeable.get? x = some m at hx
        rw [hfree] at hx
        cases hx
      show (e.cached.set hash _).get? x = some []
      rw [Dict.get?_set, if_neg (Ne.symm hne)]
      exact he x m hx

theorem evict_holds {entries : List (String × Int)} (he : e.EvictsUnpinned) (hok : evict n entries e = .ok e') :
    e'.EvictsUnpinned ∧ ∀ h, (∀ entry ∈ entries, entry.1 ≠ h) → e.Pinned h → e'.Pinned h := by
  induction entries generalizing e with
  | nil =>
    unfold evict at hok
    split at hok
    · cases hok
    · cases hok
      exact ⟨he, fun _ _ => id⟩
  | cons entry entries ih =>
    obtain ⟨hash, m⟩ := entry
    unfold evict at hok
    split at hok
    · split at hok
      · refine (ih ?_ hok).imp id fun hrest h hne hpinned => ?_
        · intro x k hx
          change (e.freeable.erase hash).get? x = some k at hx
          show (e.cached.erase hash).get? x = some []
          rw [Dict.get?_erase] at hx ⊢
          split at hx
          · cases hx
          · rename_i hxh
            rw [if_neg hxh]
            exact he x k hx
        · have hhash : hash ≠ h := hne (hash, m) List.mem_cons_self
          refine hrest h (fun entry hmem => hne entry (List.mem_cons_of_mem _ hmem)) ⟨?_, ?_⟩
          · exact contains_erase_iff.mpr ⟨Ne.symm hhash, hpinned.cached⟩
          · show (e.freeable.erase hash).get? h = none
            rw [Dict.get?_erase, if_neg hhash]
            exact hpinned.freeable
      · cases hok
    · cases hok
      exact ⟨he, fun _ _ => id⟩

theorem canAllocate_holds (he : e.EvictsUnpinned) (hok : e.canAllocate request i budget n = .ok (fits, e')) :
    Holds e e' := by
  have hthinned := canAllocate_thinned hok
  unfold canAllocate at hok
  dsimp only at hok
  split at hok
  · cases hok
    exact he.refl
  · split at hok
    · cases hok
      exact he.refl
    · split at hok
      · cases hok
        exact he.refl
      · split at hok
        · cases hok
          exact he.refl
        · simp only [Result.bind_eq_ok, Result.pure_eq_ok, Prod.mk.injEq] at hok
          obtain ⟨e₁, he₁, -, rfl⟩ := hok
          obtain ⟨hunpinned, hpinned⟩ := evict_holds he he₁
          refine ⟨hunpinned, fun h hh => hpinned h (fun entry hmem heq => ?_) hh, hthinned⟩
          have hget : e.freeable.get? entry.1 = some entry.2 := Dict.get?_eq_some.mpr hmem
          rw [heq, hh.freeable] at hget
          cases hget

theorem canAllocate_fits (hok : e.canAllocate request i budget n = .ok (true, e')) :
    (request.getNumEncoderEmbeds i : Int) ≤ budget := by
  unfold canAllocate at hok
  dsimp only at hok
  split at hok
  · cases hok
  · omega

end EncoderCacheManager

open EncoderCacheManager

namespace EncoderPlan

variable {c : SchedulerConfig} {hasCacheItem : String → Bool} {request : Request} {nc shift budget : Int}
  {f : MultiModalFeatureSpec} {i : Nat} {plan plan' : EncoderPlan} {goOn : Bool}

def currentRange (nc : Int) (f : MultiModalFeatureSpec) (plan : EncoderPlan) : Option (Int × Int) :=
  f.mmPosition.getEmbedsIndicesInRange (max 0 (nc - f.mmPosition.offset))
    (min f.mmPosition.length (nc + plan.numNewTokens - f.mmPosition.offset))

def Adds (f : MultiModalFeatureSpec) (i : Nat) (plan plan' : EncoderPlan) : Prop :=
  plan'.encoder = plan.encoder ∧ plan'.numNewTokens = plan.numNewTokens ∧
    plan'.mmHashesToSchedule = f.identifier :: plan.mmHashesToSchedule ∧
    ((plan'.encoderInputsToSchedule = plan.encoderInputsToSchedule ∧
        plan'.externalLoadEncoderInput = plan.externalLoadEncoderInput ++ [i] ∧
        plan'.encoderComputeBudget = plan.encoderComputeBudget) ∨
      (plan'.encoderInputsToSchedule = plan.encoderInputsToSchedule ++ [i] ∧
        plan'.externalLoadEncoderInput = plan.externalLoadEncoderInput ∧
        plan'.encoderComputeBudget = plan.encoderComputeBudget - f.mmPosition.getNumEmbeds))

theorem addItem_cases (h : addItem c hasCacheItem request nc shift f i plan = .ok (goOn, plan')) :
    ∃ fits e, (e = plan.encoder ∨ plan.encoder.canAllocate request i plan.encoderComputeBudget
        plan.numEmbedsToSchedule = .ok (fits, e)) ∧
      ((goOn = false ∧ ∃ n, (0 < n → n = f.mmPosition.offset - (nc + shift)) ∧
          plan' = { plan with encoder := e, numNewTokens := n }) ∨
        (goOn = true ∧ plan' = { plan with encoder := e } ∧
          ∃ x y, currentRange nc f plan = some (x, y) ∧ y - x = 0) ∨
        (goOn = true ∧ fits = true ∧ plan.encoder.canAllocate request i plan.encoderComputeBudget
            plan.numEmbedsToSchedule = .ok (fits, e) ∧ Adds f i { plan with encoder := e } plan')) := by
  unfold addItem at h
  dsimp only at h
  split at h
  · cases h
    refine ⟨true, plan.encoder, .inl rfl, .inl ⟨rfl, _, fun hpos => ?_, rfl⟩⟩
    omega
  · simp only [Result.bind_eq_ok, Prod.exists] at h
    obtain ⟨fits, e, he, h⟩ := h
    refine ⟨fits, e, .inr he, ?_⟩
    split at h
    · cases h
      refine .inl ⟨rfl, _, fun hpos => ?_, rfl⟩
      split at hpos
      · rename_i hlt
        rw [if_pos hlt]
      · omega
    · rename_i hfits
      rw [Bool.not_eq_true', Bool.not_eq_false] at hfits
      split at h
      · cases h
      · rename_i x y hrange
        split at h
        · rename_i hzero
          cases h
          exact .inr (.inl ⟨rfl, rfl, x, y, hrange, hzero⟩)
        · split at h
          · cases h
            exact .inr (.inr ⟨rfl, hfits, he, rfl, rfl, rfl, .inl ⟨rfl, rfl, rfl⟩⟩)
          · cases h
            exact .inr (.inr ⟨rfl, hfits, he, rfl, rfl, rfl, .inr ⟨rfl, rfl, rfl⟩⟩)

/-- The accumulators agree with what has been added, and the budget covers it. -/
structure Books (request : Request) (budget : Int) (plan : EncoderPlan) : Prop where
  hashes : ∀ h, h ∈ plan.mmHashesToSchedule ↔
    ∃ i ∈ plan.encoderInputsToSchedule ++ plan.externalLoadEncoderInput,
      ∃ g, request.mmFeatures[i]? = some g ∧ g.identifier = h
  spent : plan.encoderComputeBudget = budget -
    (plan.encoderInputsToSchedule.map fun i => (request.getNumEncoderEmbeds i : Int)).sum
  nonneg : 0 ≤ plan.encoderComputeBudget

theorem Books.congr (h : Books request budget plan)
    (hhashes : plan'.mmHashesToSchedule = plan.mmHashesToSchedule)
    (hinputs : plan'.encoderInputsToSchedule = plan.encoderInputsToSchedule)
    (hext : plan'.externalLoadEncoderInput = plan.externalLoadEncoderInput)
    (hbudget : plan'.encoderComputeBudget = plan.encoderComputeBudget) : Books request budget plan' where
  hashes := by rw [hhashes, hinputs, hext]; exact h.hashes
  spent := by rw [hbudget, hinputs]; exact h.spent
  nonneg := hbudget ▸ h.nonneg

theorem Books.adds (h : Books request budget plan) (hf : request.mmFeatures[i]? = some f)
    (hfits : (request.getNumEncoderEmbeds i : Int) ≤ plan.encoderComputeBudget)
    (hadds : Adds f i plan plan') : Books request budget plan' := by
  obtain ⟨-, -, hhashes, hcase⟩ := hadds
  have hmem : ∀ j, j ∈ plan'.encoderInputsToSchedule ++ plan'.externalLoadEncoderInput ↔
      j ∈ plan.encoderInputsToSchedule ++ plan.externalLoadEncoderInput ∨ j = i := by
    intro j
    rcases hcase with ⟨hinputs, hext, -⟩ | ⟨hinputs, hext, -⟩
    · rw [hinputs, hext, ← List.append_assoc, List.mem_append, List.mem_singleton]
    · rw [hinputs, hext]
      simp only [List.mem_append, List.mem_singleton]
      tauto
  have hembeds : (request.getNumEncoderEmbeds i : Int) = f.mmPosition.getNumEmbeds := by
    unfold Request.getNumEncoderEmbeds
    rw [hf]
  refine ⟨fun hash => ?_, ?_, ?_⟩
  · rw [hhashes, List.mem_cons, h.hashes hash]
    refine ⟨fun hmem' => ?_, fun ⟨j, hj, g, hg, hid⟩ => ?_⟩
    · rcases hmem' with rfl | ⟨j, hj, hg⟩
      · exact ⟨i, (hmem i).mpr (.inr rfl), f, hf, rfl⟩
      · exact ⟨j, (hmem j).mpr (.inl hj), hg⟩
    · rcases (hmem j).mp hj with hj | rfl
      · exact .inr ⟨j, hj, g, hg, hid⟩
      · rw [hf] at hg
        cases hg
        exact .inl hid.symm
  · have hspent := h.spent
    rcases hcase with ⟨hinputs, -, hbudget⟩ | ⟨hinputs, -, hbudget⟩
    · rw [hbudget, hinputs]
      exact hspent
    · rw [hbudget, hinputs, List.map_append, List.sum_append, List.map_singleton, List.sum_singleton]
      omega
  · have hnonneg := h.nonneg
    rcases hcase with ⟨-, -, hbudget⟩ | ⟨-, -, hbudget⟩ <;> omega

theorem addItem_books (h : Books request budget plan) (hf : request.mmFeatures[i]? = some f)
    (hok : addItem c hasCacheItem request nc shift f i plan = .ok (goOn, plan')) : Books request budget plan' := by
  obtain ⟨fits, e, -, ⟨-, n, -, rfl⟩ | ⟨-, rfl, -⟩ | ⟨-, rfl, hallocate, hadds⟩⟩ := addItem_cases hok
  · exact h.congr rfl rfl rfl rfl
  · exact h.congr rfl rfl rfl rfl
  · have hbefore : Books request budget { plan with encoder := e } := h.congr rfl rfl rfl rfl
    exact hbefore.adds hf (canAllocate_fits hallocate) hadds

theorem visitItem_books (h : Books request budget plan) (hf : request.mmFeatures[i]? = some f)
    (hok : visitItem c hasCacheItem request nc shift f i plan = .ok (goOn, plan')) :
    Books request budget plan' := by
  unfold visitItem at hok
  dsimp only at hok
  split at hok
  · cases hok
    exact h
  · split at hok
    · simp only [Result.bind_eq_ok, Result.pure_eq_ok, Prod.mk.injEq] at hok
      obtain ⟨-, -, -, rfl⟩ := hok
      exact h
    · split at hok
      · cases hok
        exact h
      · split at hok
        · cases hok
          exact h
        · simp only [Result.bind_eq_ok, Prod.exists] at hok
          obtain ⟨hit, e, -, hok⟩ := hok
          split at hok
          · cases hok
            exact h.congr rfl rfl rfl rfl
          · refine addItem_books ?_ hf hok
            exact h.congr rfl rfl rfl rfl

theorem visitItems_books {items : List MultiModalFeatureSpec} (h : Books request budget plan)
    (hitems : request.mmFeatures.drop i = items)
    (hok : visitItems c hasCacheItem request nc shift items i plan = .ok plan') : Books request budget plan' := by
  induction items generalizing i plan with
  | nil =>
    cases hok
    exact h
  | cons f items ih =>
    simp only [visitItems, Result.bind_eq_ok, Prod.exists] at hok
    obtain ⟨goOn, plan₁, hvisit, hok⟩ := hok
    have hf : request.mmFeatures[i]? = some f := by
      rw [← List.head?_drop, hitems]
      rfl
    have hrest : request.mmFeatures.drop (i + 1) = items := by
      rw [← List.tail_drop, hitems]
      rfl
    have hbooks := visitItem_books h hf hvisit
    split at hok
    · exact ih hbooks hrest hok
    · cases hok
      exact hbooks

end EncoderPlan

end Vllm
