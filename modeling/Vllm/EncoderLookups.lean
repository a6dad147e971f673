import Vllm.EncoderAccounting
import Vllm.EncoderNeeds

namespace Vllm

open EncoderCacheManager

namespace EncoderPlan

variable {c : SchedulerConfig} {hasCacheItem : String → Bool} {request : Request} {nc shift n budget : Int}
  {f : MultiModalFeatureSpec} {i : Nat} {plan plan' last : EncoderPlan} {goOn : Bool} {skipped skipped' : List MultiModalFeatureSpec}
  {items : List MultiModalFeatureSpec}

variable (c hasCacheItem request nc shift) in
def skips : List MultiModalFeatureSpec → Nat → EncoderPlan → List MultiModalFeatureSpec
  | [], _, _ => []
  | f :: fs, i, plan =>
    match visitItem c hasCacheItem request nc shift f i plan with
    | .ok (true, plan') =>
      if plan'.encoder.cached.contains f.identifier || plan'.mmHashesToSchedule.contains f.identifier then
        skips fs (i + 1) plan'
      else f :: skips fs (i + 1) plan'
    | _ => []

inductive Settled (nc shift n : Int) (plan : EncoderPlan) (skipped : List MultiModalFeatureSpec)
    (f : MultiModalFeatureSpec) : Prop
  | computed : (f.mmPosition.offset : Int) + f.mmPosition.length ≤ nc → Settled nc shift n plan skipped f
  | cached : plan.encoder.Pinned f.identifier → Settled nc shift n plan skipped f
  | added : f.identifier ∈ plan.mmHashesToSchedule → Settled nc shift n plan skipped f
  | behind : nc + shift + plan.numNewTokens ≤ f.mmPosition.offset → Settled nc shift n plan skipped f
  | skipped : f ∈ skipped → (∀ pos, nc ≤ pos → pos < nc + n → f.mmPosition.covers pos = false) →
      Settled nc shift n plan skipped f

theorem Settled.mono (h : Settled nc shift n plan skipped f) (hsub : skipped ⊆ skipped') :
    Settled nc shift n plan skipped' f := by
  cases h with
  | computed h => exact .computed h
  | cached h => exact .cached h
  | added h => exact .added h
  | behind h => exact .behind h
  | skipped hmem hnone => exact .skipped (hsub hmem) hnone

structure Carries (plan plan' : EncoderPlan) : Prop where
  holds : plan.encoder.Holds plan'.encoder
  hashes : plan.mmHashesToSchedule ⊆ plan'.mmHashesToSchedule

theorem Carries.trans (h : Carries plan plan') (h' : Carries plan' last) : Carries plan last :=
  ⟨h.holds.trans h'.holds, List.Subset.trans h.hashes h'.hashes⟩

theorem currentRange_empty {x y : Int} (hrange : currentRange nc f plan = some (x, y)) (hzero : y - x = 0) {pos : Int}
    (hle : nc ≤ pos) (hlt : pos < nc + plan.numNewTokens) : f.mmPosition.covers pos = false := by
  cases hcovers : f.mmPosition.covers pos with
  | false => rfl
  | true =>
    have hpos := hcovers
    unfold PlaceholderRange.covers at hpos
    rw [decide_eq_true_eq] at hpos
    have hnone := (f.mmPosition.getEmbedsIndices_eq_iff (le_max_left _ _) (by omega) (min_le_left _ _) hrange).mp
      (by omega) pos (by omega) (by omega)
    rw [hnone] at hcovers
    cases hcovers

theorem addItem_settles (he : plan.encoder.EvictsUnpinned) (hmiss : plan.encoder.cached.contains f.identifier = false)
    (h : addItem c hasCacheItem request nc shift f i plan = .ok (goOn, plan')) :
    Carries plan plan' ∧
      ((goOn = false ∧ (0 < plan'.numNewTokens → plan'.numNewTokens = f.mmPosition.offset - (nc + shift))) ∨
        (goOn = true ∧ plan'.numNewTokens = plan.numNewTokens ∧ (f.identifier ∈ plan'.mmHashesToSchedule ∨
          (plan'.encoder.cached.contains f.identifier = false ∧
            ∀ pos, nc ≤ pos → pos < nc + plan.numNewTokens → f.mmPosition.covers pos = false)))) := by
  obtain ⟨fits, e, hcheck, hcases⟩ := addItem_cases h
  have hholds : plan.encoder.Holds e := by
    rcases hcheck with rfl | hcheck
    · exact he.refl
    · exact canAllocate_holds he hcheck
  rcases hcases with ⟨rfl, n, hn, rfl⟩ | ⟨rfl, rfl, x, y, hrange, hzero⟩ | ⟨rfl, -, -, hencoder, hsame, hhashes, -⟩
  · exact ⟨⟨hholds, List.Subset.refl _⟩, .inl ⟨rfl, hn⟩⟩
  · refine ⟨⟨hholds, List.Subset.refl _⟩, .inr ⟨rfl, rfl, .inr ⟨?_, ?_⟩⟩⟩
    · exact Bool.eq_false_iff.mpr fun hcached => by
        rw [hholds.thinned.cached _ hcached] at hmiss
        cases hmiss
    · exact fun pos hle hlt => currentRange_empty hrange hzero hle hlt
  · refine ⟨⟨hencoder ▸ hholds, ?_⟩, .inr ⟨rfl, hsame, .inl ?_⟩⟩
    · rw [hhashes]
      exact List.subset_cons_self _ _
    · rw [hhashes]
      exact List.mem_cons_self

theorem visitItem_settles (hd : c.isEncoderDecoder = false) (hkind : plan.encoder.isEncoderDecoder = false)
    (he : plan.encoder.EvictsUnpinned)
    (h : visitItem c hasCacheItem request nc shift f i plan = .ok (goOn, plan')) :
    Carries plan plan' ∧
      ((goOn = false ∧ (0 < plan'.numNewTokens → plan'.numNewTokens ≤ plan.numNewTokens ∧
          nc + shift + plan'.numNewTokens ≤ f.mmPosition.offset)) ∨
        (goOn = true ∧ plan'.numNewTokens = plan.numNewTokens ∧
          ((f.mmPosition.offset : Int) + f.mmPosition.length ≤ nc ∨ plan'.encoder.Pinned f.identifier ∨
            f.identifier ∈ plan'.mmHashesToSchedule ∨ (plan'.encoder.cached.contains f.identifier = false ∧
              ∀ pos, nc ≤ pos → pos < nc + plan.numNewTokens → f.mmPosition.covers pos = false)))) := by
  have hsame : Carries plan plan := ⟨he.refl, List.Subset.refl _⟩
  unfold visitItem at h
  dsimp only at h
  rw [hd] at h
  split at h
  · cases h
    exact ⟨hsame, .inl ⟨rfl, fun _ => ⟨Int.le_refl _, by omega⟩⟩⟩
  · rename_i hstart
    rw [if_neg (fun hand => Bool.noConfusion hand.1)] at h
    split at h
    · rename_i hdone
      cases h
      exact ⟨hsame, .inr ⟨rfl, rfl, .inl hdone⟩⟩
    · split at h
      · rename_i hadded
        cases h
        rw [Bool.not_false, Bool.true_and, List.contains_iff_mem] at hadded
        exact ⟨hsame, .inr ⟨rfl, rfl, .inr (.inr (.inl hadded))⟩⟩
      · simp only [Result.bind_eq_ok, Prod.exists] at h
        obtain ⟨hit, e, hcheck, h⟩ := h
        obtain ⟨hholds, hresult⟩ := checkAndUpdateCache_holds he hkind hcheck
        split at h
        · rename_i hhit
          cases h
          rw [if_pos hhit] at hresult
          exact ⟨⟨hholds, List.Subset.refl _⟩, .inr ⟨rfl, rfl, .inr (.inl hresult)⟩⟩
        · rename_i hhit
          rw [if_neg hhit] at hresult
          obtain ⟨rfl, hmiss⟩ := hresult
          obtain ⟨hcarries, hcases⟩ := addItem_settles he hmiss h
          refine ⟨hcarries, ?_⟩
          rcases hcases with ⟨hstop, hn⟩ | ⟨hgo, hn, hsettled⟩
          · refine .inl ⟨hstop, fun hpos => ?_⟩
            have hn := hn hpos
            exact ⟨by omega, by omega⟩
          · exact .inr ⟨hgo, hn, .inr (.inr hsettled)⟩

theorem visitItems_settles (hd : c.isEncoderDecoder = false) (hkind : plan.encoder.isEncoderDecoder = false)
    (he : plan.encoder.EvictsUnpinned)
    (hsorted : items.Pairwise fun f g => f.mmPosition.offset ≤ g.mmPosition.offset)
    (h : visitItems c hasCacheItem request nc shift items i plan = .ok last) (hpos : 0 < last.numNewTokens) :
    Carries plan last ∧ last.numNewTokens ≤ plan.numNewTokens ∧
      (∀ f ∈ items, Settled nc shift plan.numNewTokens last
        (skips c hasCacheItem request nc shift items i plan) f) ∧
      ∀ f ∈ skips c hasCacheItem request nc shift items i plan, f ∈ items ∧
        last.encoder.cached.contains f.identifier = false := by
  induction items generalizing i plan with
  | nil =>
    cases h
    exact ⟨⟨he.refl, List.Subset.refl _⟩, Int.le_refl _, List.forall_mem_nil _, List.forall_mem_nil _⟩
  | cons f items ih =>
    obtain ⟨hfirst, hsorted⟩ := List.pairwise_cons.mp hsorted
    simp only [visitItems, Result.bind_eq_ok, Prod.exists] at h
    obtain ⟨goOn, plan₁, hvisit, h⟩ := h
    obtain ⟨hcarries, hround⟩ := visitItem_settles hd hkind he hvisit
    unfold skips
    rw [hvisit]
    rcases hround with ⟨rfl, hstop⟩ | ⟨rfl, hsame, hsettled⟩
    · cases h
      obtain ⟨hle, hbehind⟩ := hstop hpos
      refine ⟨hcarries, hle, fun g hg => .behind ?_, List.forall_mem_nil _⟩
      rcases List.mem_cons.mp hg with rfl | hg
      · exact hbehind
      · have := hfirst g hg
        omega
    · have hkind₁ : plan₁.encoder.isEncoderDecoder = false := hcarries.holds.thinned.same.trans hkind
      obtain ⟨hrest, hle, hall, hskips⟩ := ih hkind₁ hcarries.holds.unpinned hsorted h
      dsimp only
      have hhere : ∀ skipped, skips c hasCacheItem request nc shift items (i + 1) plan₁ ⊆ skipped →
          ((plan₁.encoder.cached.contains f.identifier = false ∧ f.identifier ∉ plan₁.mmHashesToSchedule) →
            f ∈ skipped) → ∀ g ∈ f :: items, Settled nc shift plan.numNewTokens last skipped g := by
        intro skipped hsub hlog g hg
        rcases List.mem_cons.mp hg with rfl | hg
        · rcases hsettled with hdone | hpinned | hadded | ⟨hcached, hnone⟩
          · exact .computed hdone
          · exact .cached (hrest.holds.pinned _ hpinned)
          · exact .added (hrest.hashes hadded)
          · by_cases hadded : g.identifier ∈ plan₁.mmHashesToSchedule
            · exact .added (hrest.hashes hadded)
            · exact .skipped (hlog ⟨hcached, hadded⟩) hnone
        · exact hsame ▸ (hall g hg).mono hsub
      have hlater : ∀ g ∈ skips c hasCacheItem request nc shift items (i + 1) plan₁,
          g ∈ f :: items ∧ last.encoder.cached.contains g.identifier = false :=
        fun g hg => ⟨List.mem_cons_of_mem f (hskips g hg).1, (hskips g hg).2⟩
      refine ⟨hcarries.trans hrest, by omega, ?_⟩
      split
      · rename_i havailable
        refine ⟨hhere _ (List.Subset.refl _) fun hnot => ?_, hlater⟩
        rw [Bool.or_eq_true, List.contains_iff_mem] at havailable
        rcases havailable with hcached | hadded
        · rw [hnot.1] at hcached
          cases hcached
        · exact absurd hadded hnot.2
      · rename_i hmissing
        refine ⟨hhere _ (List.subset_cons_self _ _) fun _ => List.mem_cons_self, fun g hg => ?_⟩
        rcases List.mem_cons.mp hg with rfl | hg
        · refine ⟨List.mem_cons_self, Bool.eq_false_iff.mpr fun hcached => hmissing ?_⟩
          have hcached : plan₁.encoder.cached.contains g.identifier = true :=
            hrest.holds.thinned.cached _ hcached
          rw [hcached, Bool.true_or]
        · exact hlater g hg

/-- Where no item begins before the one before it ends, an item passed over in front of the next position is
the last one that the loop gets to. -/
theorem visitItems_last (hapart : items.Pairwise fun f g => f.mmPosition.offset + f.mmPosition.length ≤
      g.mmPosition.offset)
    (hd : c.isEncoderDecoder = false) (hkind : plan.encoder.isEncoderDecoder = false)
    (he : plan.encoder.EvictsUnpinned)
    (h : visitItems c hasCacheItem request nc 1 items i plan = .ok last)
    (hf : f ∈ skips c hasCacheItem request nc 1 items i plan)
    (hcovers : f.mmPosition.covers (nc + plan.numNewTokens) = true) :
    last.numNewTokens = plan.numNewTokens ∧ f.identifier ∉ last.mmHashesToSchedule := by
  induction items generalizing i plan with
  | nil => cases hf
  | cons g items ih =>
    obtain ⟨hfirst, hapart⟩ := List.pairwise_cons.mp hapart
    simp only [visitItems, Result.bind_eq_ok, Prod.exists] at h
    obtain ⟨goOn, plan₁, hvisit, h⟩ := h
    obtain ⟨hcarries, hround⟩ := visitItem_settles hd hkind he hvisit
    unfold skips at hf
    rw [hvisit] at hf
    cases goOn with
    | false => cases hf
    | true =>
      rcases hround with ⟨hstop, -⟩ | ⟨-, hsame, -⟩
      · cases hstop
      · have hkind₁ : plan₁.encoder.isEncoderDecoder = false := hcarries.holds.thinned.same.trans hkind
        rw [← hsame] at hcovers ⊢
        have hlater := ih hapart hkind₁ hcarries.holds.unpinned h
        dsimp only at hf
        split at hf
        · exact hlater hf hcovers
        · rename_i hmissing
          rcases List.mem_cons.mp hf with rfl | hf
          · rw [Bool.or_eq_true, not_or, List.contains_iff_mem] at hmissing
            have hlast : plan₁ = last := by
              have hrange := hcovers
              unfold PlaceholderRange.covers at hrange
              rw [decide_eq_true_eq] at hrange
              cases items with
              | nil =>
                cases h
                rfl
              | cons h₁ items =>
                have hbehind := hfirst h₁ List.mem_cons_self
                have hbreak : visitItem c hasCacheItem request nc 1 h₁ (i + 1) plan₁ = .ok (false, plan₁) := by
                  unfold visitItem
                  exact if_pos (by omega)
                simp only [if_true, visitItems, hbreak, Result.ok_bind] at h
                cases h
                rfl
            rw [← hlast]
            exact ⟨rfl, hmissing.2⟩
          · exact hlater hf hcovers

end EncoderPlan

namespace GPUModelRunner

/-- What the worker looks up for a request. The runner of an encoder-decoder model does not gather
embeddings. -/
def gatherLookups (c : SchedulerConfig) (request : Request)
    (numComputedTokens numScheduledTokens shiftComputedTokens : Int) : List MultiModalFeatureSpec :=
  if c.isEncoderDecoder then []
  else lookedUp (numComputedTokens + shiftComputedTokens) numScheduledTokens request.mmFeatures

end GPUModelRunner

namespace EncoderPlan

variable {c : SchedulerConfig} {env : Outside} {s : Scheduler} {request : Request} {nc n : Int} {plan : EncoderPlan}
  {f : MultiModalFeatureSpec}

def Added (request : Request) (plan : EncoderPlan) (identifier : String) : Prop :=
  ∃ i ∈ plan.encoderInputsToSchedule ++ plan.externalLoadEncoderInput,
    ∃ g, request.mmFeatures[i]? = some g ∧ g.identifier = identifier

def Available (request : Request) (plan : EncoderPlan) (f : MultiModalFeatureSpec) : Prop :=
  plan.encoder.cached.contains f.identifier = true ∨ Added request plan f.identifier

/-- In a step of at most the planned length the worker finds all it looks up, and under EAGLE also
one position further on. -/
def NeverMisses (c : SchedulerConfig) (request : Request) (nc : Int) (plan : EncoderPlan) : Prop :=
  ∀ m ≤ plan.numNewTokens,
    (∀ f ∈ GPUModelRunner.gatherLookups c request nc m 0, Available request plan f) ∧
    (c.kv.useEagle = true → ∀ f ∈ GPUModelRunner.gatherLookups c request nc m 1, Available request plan f)

def skipped (c : SchedulerConfig) (env : Outside) (s : Scheduler) (request : Request) (nc n budget : Int) :
    List MultiModalFeatureSpec :=
  skips c env.hasCacheItem request nc (if c.kv.useEagle then 1 else 0) request.mmFeatures 0
    { encoder := s.encoderCacheManager, numNewTokens := n, encoderComputeBudget := budget }

/-- Under EAGLE, an item passed over with an embedding right behind the step is saved by a shorter
step or by another item with its identifier. -/
def MindsNextPosition (c : SchedulerConfig) (env : Outside) (s : Scheduler) (request : Request) (nc n budget : Int)
    (plan : EncoderPlan) : Prop :=
  c.kv.useEagle = true → c.isEncoderDecoder = false → ∀ f ∈ skipped c env s request nc n budget,
    f.mmPosition.covers (nc + n) = true → plan.numNewTokens < n ∨ Added request plan f.identifier

theorem tryScheduleEncoderInputs_books {budget : Nat}
    (h : Scheduler.tryScheduleEncoderInputs c env s request nc n budget = .ok plan) :
    Books request budget plan := by
  have hstart : Books request budget
      { encoder := s.encoderCacheManager, numNewTokens := n, encoderComputeBudget := budget } := by
    refine ⟨fun x => ⟨nofun, fun ⟨_, hi, _⟩ => absurd hi List.not_mem_nil⟩, ?_, Int.natCast_nonneg budget⟩
    exact (Int.sub_zero _).symm
  unfold Scheduler.tryScheduleEncoderInputs at h
  dsimp only at h
  split at h
  · cases h
    exact hstart
  · exact visitItems_books hstart List.drop_zero h

theorem tryScheduleEncoderInputs_settles {budget : Int} (hd : c.isEncoderDecoder = false)
    (hkind : s.encoderCacheManager.isEncoderDecoder = false) (he : s.encoderCacheManager.EvictsUnpinned)
    (hsorted : request.mmFeatures.Pairwise fun f g => f.mmPosition.offset ≤ g.mmPosition.offset)
    (h : Scheduler.tryScheduleEncoderInputs c env s request nc n budget = .ok plan)
    (hpos : 0 < plan.numNewTokens) :
    plan.numNewTokens ≤ n ∧
    (∀ f ∈ request.mmFeatures, Settled nc (if c.kv.useEagle then 1 else 0) n plan
      (skipped c env s request nc n budget) f) ∧
    ∀ f ∈ skipped c env s request nc n budget, f ∈ request.mmFeatures ∧
      plan.encoder.cached.contains f.identifier = false := by
  unfold Scheduler.tryScheduleEncoderInputs at h
  dsimp only at h
  split at h
  · rename_i hnone
    have hempty : request.mmFeatures = [] := by
      rcases hnone with hzero | hnone
      · cases h
        exact absurd hzero (Int.ne_of_gt hpos)
      · simpa [Request.hasEncoderInputs, List.length_eq_zero_iff] using hnone
    cases h
    unfold skipped
    rw [hempty]
    exact ⟨Int.le_refl _, nofun, nofun⟩
  · exact (visitItems_settles hd hkind he hsorted h hpos).2

theorem available_of_settled {σ m shift budget : Int} {log : List MultiModalFeatureSpec} (hbooks : Books request budget plan)
    (hσ : σ = 0 ∨ σ = 1 ∧ shift = 1) (hshift : 0 ≤ shift) (hm : m ≤ plan.numNewTokens)
    (hle : plan.numNewTokens ≤ n)
    (hminds : shift = 1 → ∀ f ∈ log, f.mmPosition.covers (nc + n) = true →
      plan.numNewTokens < n ∨ Added request plan f.identifier)
    (hall : ∀ f ∈ request.mmFeatures, Settled nc shift n plan log f)
    (hf : f ∈ GPUModelRunner.lookedUp (nc + σ) m request.mmFeatures) : Available request plan f := by
  obtain ⟨hmem, pos, hfrom, hlt, hcovers⟩ := GPUModelRunner.covers_of_lookedUp hf
  have hrange := hcovers
  unfold PlaceholderRange.covers at hrange
  rw [decide_eq_true_eq] at hrange
  cases hall f hmem with
  | computed hdone => omega
  | cached hpinned => exact .inl hpinned.cached
  | added hadded => exact .inr ((hbooks.hashes _).mp hadded)
  | behind hbehind => omega
  | skipped hskip hnone =>
    by_cases hstep : pos < nc + n
    · rw [hnone pos (by omega) hstep] at hcovers
      cases hcovers
    · have hnext : pos = nc + n := by omega
      subst hnext
      refine (hminds (by omega) f hskip hcovers).elim (fun hshorter => ?_) .inr
      omega

theorem skipped_last {budget : Int} (hapart : request.mmFeatures.Pairwise fun f g =>
      f.mmPosition.offset + f.mmPosition.length ≤ g.mmPosition.offset)
    (hd : c.isEncoderDecoder = false) (heagle : c.kv.useEagle = true)
    (hkind : s.encoderCacheManager.isEncoderDecoder = false) (he : s.encoderCacheManager.EvictsUnpinned)
    (h : Scheduler.tryScheduleEncoderInputs c env s request nc n budget = .ok plan)
    (hpos : 0 < plan.numNewTokens) (hf : f ∈ skipped c env s request nc n budget)
    (hcovers : f.mmPosition.covers (nc + n) = true) :
    plan.numNewTokens = n ∧ f.identifier ∉ plan.mmHashesToSchedule := by
  unfold Scheduler.tryScheduleEncoderInputs at h
  unfold skipped at hf
  rw [heagle] at hf h
  dsimp only at h
  split at h
  · rename_i hnone
    rcases hnone with hzero | hnone
    · cases h
      exact absurd hzero (Int.ne_of_gt hpos)
    · have hempty : request.mmFeatures = [] := by
        simpa [Request.hasEncoderInputs, List.length_eq_zero_iff] using hnone
      rw [hempty] at hf
      cases hf
  · exact visitItems_last hapart hd hkind he h hf hcovers

/-- The budget pays for the items that are scheduled. The worker finds all it looks up exactly if, under
EAGLE, the loop minds the position right behind the step; without EAGLE it always does. Where the items do
not overlap, the loop does not mind it if it passes over one with an embedding there. -/
theorem tryScheduleEncoderInputs_neverMisses_iff {budget : Nat}
    (hkind : s.encoderCacheManager.isEncoderDecoder = c.isEncoderDecoder)
    (he : s.encoderCacheManager.EvictsUnpinned)
    (hsorted : request.mmFeatures.Pairwise fun f g => f.mmPosition.offset ≤ g.mmPosition.offset)
    (h : Scheduler.tryScheduleEncoderInputs c env s request nc n budget = .ok plan)
    (hpos : 0 < plan.numNewTokens) :
    (plan.encoderComputeBudget = budget -
        (plan.encoderInputsToSchedule.map fun i => (request.getNumEncoderEmbeds i : Int)).sum ∧
      0 ≤ plan.encoderComputeBudget) ∧
    (MindsNextPosition c env s request nc n budget plan → NeverMisses c request nc plan) ∧
    ((∀ f ∈ request.mmFeatures, f.mmPosition.WellFormed) →
      (NeverMisses c request nc plan ↔ MindsNextPosition c env s request nc n budget plan)) ∧
    ((∀ f ∈ request.mmFeatures, f.mmPosition.WellFormed) →
      (request.mmFeatures.Pairwise fun f g => f.mmPosition.offset + f.mmPosition.length ≤ g.mmPosition.offset) →
      (NeverMisses c request nc plan ↔ (c.kv.useEagle = true → c.isEncoderDecoder = false →
        ∀ f ∈ skipped c env s request nc n budget, f.mmPosition.covers (nc + n) = false))) := by
  have hbooks := tryScheduleEncoderInputs_books h
  have henough : MindsNextPosition c env s request nc n budget plan → NeverMisses c request nc plan := by
    intro hminds m hm
    unfold GPUModelRunner.gatherLookups
    cases hd : c.isEncoderDecoder with
    | true => exact ⟨nofun, fun _ => nofun⟩
    | false =>
      obtain ⟨hle, hall, -⟩ := tryScheduleEncoderInputs_settles hd (hkind.trans hd) he hsorted h hpos
      have hminds : (if c.kv.useEagle then (1 : Int) else 0) = 1 → _ := fun hshift =>
        hminds (by simpa using hshift) hd
      have hshift : (0 : Int) ≤ if c.kv.useEagle then 1 else 0 := by split <;> decide
      refine ⟨fun f hf => available_of_settled hbooks (.inl rfl) hshift hm hle hminds hall hf, fun heagle f hf => ?_⟩
      exact available_of_settled hbooks (.inr ⟨rfl, if_pos heagle⟩) hshift hm hle hminds hall hf
  have hneeds : (∀ f ∈ request.mmFeatures, f.mmPosition.WellFormed) → NeverMisses c request nc plan →
      MindsNextPosition c env s request nc n budget plan := by
    intro hwell hnever heagle hd f hf hcovers
    obtain ⟨hle, -, hskipped⟩ := tryScheduleEncoderInputs_settles hd (hkind.trans hd) he hsorted h hpos
    obtain ⟨hmem, hcached⟩ := hskipped f hf
    by_cases hshorter : plan.numNewTokens < n
    · exact .inl hshorter
    · have hlookups := (hnever plan.numNewTokens (Int.le_refl _)).2 heagle f
      unfold GPUModelRunner.gatherLookups at hlookups
      rw [if_neg (by rw [hd]; decide)] at hlookups
      have hfound := hlookups (GPUModelRunner.lookedUp_of_covers hsorted hwell hmem (by omega) (by omega) hcovers)
      refine .inr (hfound.resolve_left fun hfound => ?_)
      rw [hcached] at hfound
      cases hfound
  refine ⟨⟨hbooks.spent, hbooks.nonneg⟩, henough, fun hwell => ⟨hneeds hwell, henough⟩, fun hwell hapart => ⟨?_, ?_⟩⟩
  · intro hnever heagle hd f hf
    by_contra hcovers
    rw [Bool.not_eq_false] at hcovers
    obtain ⟨hsame, hnew⟩ := skipped_last hapart hd heagle (hkind.trans hd) he h hpos hf hcovers
    rcases hneeds hwell hnever heagle hd f hf hcovers with hshorter | hadded
    · omega
    · exact hnew ((hbooks.hashes _).mpr hadded)
  · intro hfree
    refine henough fun heagle hd f hf hcovers => ?_
    rw [hfree heagle hd f hf] at hcovers
    cases hcovers

theorem evictsUnpinned_of_balanced {size : String → Nat} {cacheSize : Nat} {e : EncoderCacheManager}
    (h : Balanced size cacheSize e) : e.EvictsUnpinned := fun hash n hfree =>
  (h.unreferenced hash).mp (Dict.mem_keys.mpr ⟨n, hfree⟩)

/-! A prompt of six tokens that ends with an image of two tokens. -/

def drafting : SchedulerConfig where
  kv :=
    { numGpuBlocks := 9
      enableCaching := false
      hashBlockSize := 1
      maxModelLen := 8
      useEagle := true
      kvCacheGroups := [.fullAttention ⟨1, 1, 1, .float16, none⟩ 1 none none] }
  policy := .fcfs
  maxNumRunningReqs := 1
  maxNumScheduledTokens := 4
  maxNumEncoderInputTokens := 8
  encoderCacheSize := 8

def imageAtEnd : Request where
  requestId := "a"
  promptTokenIds := some [1, 2, 3, 4, 5, 5]
  numPromptTokens := 6
  allTokenIds := [1, 2, 3, 4, 5, 5]
  mmFeatures := [⟨"image", ⟨4, 2, none⟩⟩]

theorem imageAtEnd_sorted : imageAtEnd.mmFeatures.Pairwise fun f g => f.mmPosition.offset ≤ g.mmPosition.offset :=
  List.pairwise_singleton _ _

theorem neverMisses_fiveTokens : ∃ plan,
    Scheduler.tryScheduleEncoderInputs drafting {} (Scheduler.init drafting) imageAtEnd 0 5 (8 : Nat) = .ok plan ∧
      plan.encoderInputsToSchedule = [0] ∧ NeverMisses drafting imageAtEnd 0 plan := by
  obtain ⟨plan, hok, hplan⟩ := Result.exists_of_holds
    (x := Scheduler.tryScheduleEncoderInputs drafting {} (Scheduler.init drafting) imageAtEnd 0 5 (8 : Nat))
    (p := fun plan => plan.encoderInputsToSchedule = [0] ∧ 0 < plan.numNewTokens) (by decide +kernel)
  rw [decide_eq_true_eq] at hplan
  refine ⟨plan, hok, hplan.1, ?_⟩
  have hlog : skipped drafting {} (Scheduler.init drafting) imageAtEnd 0 5 (8 : Nat) = [] := by decide +kernel
  have hempty : (Scheduler.init drafting).encoderCacheManager.EvictsUnpinned := fun _ _ hget => by cases hget
  refine (tryScheduleEncoderInputs_neverMisses_iff rfl hempty imageAtEnd_sorted hok hplan.2).2.1 fun _ _ => ?_
  rw [hlog]
  exact nofun

/-- The step ends right in front of the image: the drafter looks one position further. -/
theorem not_neverMisses_fourTokens : ∃ plan,
    Scheduler.tryScheduleEncoderInputs drafting {} (Scheduler.init drafting) imageAtEnd 0 4 (8 : Nat) = .ok plan ∧
      plan.numNewTokens = 4 ∧ plan.encoderInputsToSchedule = [] ∧ plan.externalLoadEncoderInput = [] ∧
      GPUModelRunner.gatherLookups drafting imageAtEnd 0 4 1 = imageAtEnd.mmFeatures ∧
      ¬ NeverMisses drafting imageAtEnd 0 plan := by
  obtain ⟨plan, hok, hplan⟩ := Result.exists_of_holds
    (x := Scheduler.tryScheduleEncoderInputs drafting {} (Scheduler.init drafting) imageAtEnd 0 4 (8 : Nat))
    (p := fun plan => plan.numNewTokens = 4 ∧ plan.encoderInputsToSchedule = [] ∧
      plan.externalLoadEncoderInput = [] ∧ plan.encoder.cached.contains "image" = false) (by decide +kernel)
  rw [decide_eq_true_eq] at hplan
  obtain ⟨hn, hinputs, hext, hcached⟩ := hplan
  have hlookups : GPUModelRunner.gatherLookups drafting imageAtEnd 0 4 1 = imageAtEnd.mmFeatures := by decide +kernel
  refine ⟨plan, hok, hn, hinputs, hext, hlookups, fun h => ?_⟩
  have hmem : (⟨"image", ⟨4, 2, none⟩⟩ : MultiModalFeatureSpec) ∈
      GPUModelRunner.gatherLookups drafting imageAtEnd 0 4 1 := by
    rw [hlookups]
    exact List.mem_cons_self
  have hfound := (h 4 (Int.le_of_eq hn.symm)).2 rfl _ hmem
  rcases hfound with hfound | ⟨i, hi, -⟩
  · rw [hcached] at hfound
    cases hfound
  · rw [hinputs, hext] at hi
    cases hi

end EncoderPlan

end Vllm
