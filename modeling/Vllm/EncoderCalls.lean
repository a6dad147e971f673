import Vllm.EncoderLookups

namespace Vllm

open EncoderCacheManager

namespace EncoderPlan

variable (c : SchedulerConfig) (hasCacheItem : String → Bool) (request : Request)
  (numComputedTokens shiftComputedTokens : Int)

def needsItem (f : MultiModalFeatureSpec) (plan : EncoderPlan) : Bool :=
  match f.mmPosition.getEmbedsIndicesInRange (max 0 (numComputedTokens - f.mmPosition.offset))
    (min (f.mmPosition.length : Int) (numComputedTokens + plan.numNewTokens - f.mmPosition.offset)) with
  | none => false
  | some (currEmbedsStart, currEmbedsEnd) => currEmbedsEnd - currEmbedsStart ≠ 0

def addItemCalls (f : MultiModalFeatureSpec) (plan : EncoderPlan) : List Call :=
  if c.disableChunkedMmInput ∧ numComputedTokens < (f.mmPosition.offset : Int) ∧
      numComputedTokens + plan.numNewTokens < (f.mmPosition.offset : Int) + f.mmPosition.length then []
  else [.canAllocate plan.encoderComputeBudget (needsItem numComputedTokens f plan)]

def visitItemCalls (f : MultiModalFeatureSpec) (i : Nat) (plan : EncoderPlan) : List Call :=
  let startPos : Int := f.mmPosition.offset
  if startPos ≥ numComputedTokens + plan.numNewTokens + shiftComputedTokens then []
  else if c.isEncoderDecoder ∧ numComputedTokens > 0 then []
  else if startPos + f.mmPosition.length ≤ numComputedTokens then []
  else if !c.isEncoderDecoder && plan.mmHashesToSchedule.contains f.identifier then []
  else
    .checkAndUpdateCache i ::
      (plan.encoder.checkAndUpdateCache request f.identifier).collect fun (hit, encoder) =>
        if hit then [] else addItemCalls c numComputedTokens f { plan with encoder }

def visitItemsCalls : List MultiModalFeatureSpec → Nat → EncoderPlan → List Call
  | [], _, _ => []
  | f :: fs, i, plan =>
    visitItemCalls c request numComputedTokens shiftComputedTokens f i plan ++
      (visitItem c hasCacheItem request numComputedTokens shiftComputedTokens f i plan).collect fun (goOn, plan) =>
        if goOn then visitItemsCalls fs (i + 1) plan else []

end EncoderPlan

/-- The calls of `_try_schedule_encoder_inputs`, which turns to the request. -/
def Scheduler.tryScheduleEncoderInputsCalls (c : SchedulerConfig) (env : Outside) (s : Scheduler) (request : Request)
    (numComputedTokens numNewTokens encoderComputeBudget : Int) : List Call :=
  .turnTo request ::
    if numNewTokens = 0 ∨ !request.hasEncoderInputs then []
    else
      EncoderPlan.visitItemsCalls c env.hasCacheItem request numComputedTokens (if c.kv.useEagle then 1 else 0)
        request.mmFeatures 0 { encoder := s.encoderCacheManager, numNewTokens, encoderComputeBudget }

/-- The calls of `schedule()` for the planned inputs of a scheduled request. -/
def Step.scheduleEncoderCalls (plan : EncoderPlan) : List Call :=
  plan.encoderInputsToSchedule.map .allocate ++ plan.externalLoadEncoderInput.map .allocate

variable {cacheSize : Nat} {c : SchedulerConfig} {request : Request} {e e' : EncoderCacheManager}
  {chosen rest : List Nat} {i : Nat}

theorem EncoderCacheManager.Ordered.append {calls calls' : List Call} {e'' : EncoderCacheManager}
    {t t' t'' : Turn} (h : Ordered cacheSize calls e t) (hrun : runCalls cacheSize calls e t = .ok (e', t'))
    (h' : Ordered cacheSize calls' e' t') (hrun' : runCalls cacheSize calls' e' t' = .ok (e'', t'')) :
    Ordered cacheSize (calls ++ calls') e t ∧ runCalls cacheSize (calls ++ calls') e t = .ok (e'', t'') := by
  refine ⟨ordered_append.mpr ⟨h, fun e t heq => ?_⟩, ?_⟩
  · obtain ⟨rfl, rfl⟩ := Prod.mk.inj (Except.ok.inj (hrun.symm.trans heq))
    exact h'
  · rw [runCalls_append, hrun]
    exact hrun'

namespace EncoderPlan

variable {hasCacheItem : String → Bool} {a b : Int} {f : MultiModalFeatureSpec} {plan plan' : EncoderPlan}
  {goOn : Bool}

structure Tracks (plan : EncoderPlan) (request : Request) (chosen : List Nat) : Prop where
  inputs : chosen.Perm (plan.encoderInputsToSchedule ++ plan.externalLoadEncoderInput)
  hashes : ∀ h, h ∈ plan.mmHashesToSchedule ↔ h ∈ identifiers request chosen
  embeds : plan.numEmbedsToSchedule = numEmbeds request chosen

/-- The calls between two plans come in order. -/
def Follows (cacheSize : Nat) (request : Request) (calls : List Call) (plan : EncoderPlan) (chosen : List Nat)
    (missed : Option Nat) (plan' : EncoderPlan) : Prop :=
  Ordered cacheSize calls plan.encoder (.checking request chosen missed) ∧
    ∃ chosen' missed', runCalls cacheSize calls plan.encoder (.checking request chosen missed) =
      .ok (plan'.encoder, .checking request chosen' missed') ∧ Tracks plan' request chosen'

theorem Tracks.follows (h : Tracks plan' request chosen) (he : plan'.encoder = plan.encoder) (missed : Option Nat) :
    Follows cacheSize request [] plan chosen missed plan' :=
  ⟨trivial, chosen, missed, by rw [he]; rfl, h⟩

theorem Tracks.congr (h : Tracks plan request chosen)
    (hinputs : plan'.encoderInputsToSchedule = plan.encoderInputsToSchedule)
    (hext : plan'.externalLoadEncoderInput = plan.externalLoadEncoderInput)
    (hhashes : plan'.mmHashesToSchedule = plan.mmHashesToSchedule)
    (hembeds : plan'.numEmbedsToSchedule = plan.numEmbedsToSchedule) : Tracks plan' request chosen where
  inputs := by rw [hinputs, hext]; exact h.inputs
  hashes := by rw [hhashes]; exact h.hashes
  embeds := hembeds.trans h.embeds

theorem Tracks.choose (h : Tracks plan request chosen) (hf : request.mmFeatures[i]? = some f)
    (hinputs : (plan'.encoderInputsToSchedule ++ plan'.externalLoadEncoderInput).Perm
      (plan.encoderInputsToSchedule ++ plan.externalLoadEncoderInput ++ [i]))
    (hhashes : plan'.mmHashesToSchedule = f.identifier :: plan.mmHashesToSchedule)
    (hembeds : plan'.numEmbedsToSchedule = plan.numEmbedsToSchedule + f.mmPosition.getNumEmbeds) :
    Tracks plan' request (chosen ++ [i]) where
  inputs := (h.inputs.append_right [i]).trans hinputs.symm
  hashes x := by
    rw [hhashes, identifiers_append_singleton hf, List.mem_cons, List.mem_append, List.mem_singleton, h.hashes,
      or_comm]
  embeds := by
    rw [hembeds, h.embeds, numEmbeds_append_singleton, Request.getNumEncoderEmbeds, hf]

theorem addItem_calls (h : Tracks plan request chosen) (hf : request.mmFeatures[i]? = some f)
    (hok : addItem c hasCacheItem request a b f i plan = .ok (goOn, plan')) :
    Follows cacheSize request (addItemCalls c a f plan) plan chosen (some i) plan' := by
  unfold addItem at hok
  unfold addItemCalls
  dsimp only at hok
  split at hok
  · rename_i hbroken
    cases hok
    rw [if_pos hbroken]
    exact ⟨trivial, chosen, some i, rfl, h.congr rfl rfl rfl rfl⟩
  · rename_i hbroken
    rw [if_neg hbroken]
    simp only [Result.bind_eq_ok, Prod.exists] at hok
    obtain ⟨fits, e, he, hok⟩ := hok
    have hask : ∀ choose, runCalls cacheSize [.canAllocate plan.encoderComputeBudget choose] plan.encoder
        (.checking request chosen (some i)) =
        .ok (e, .checking request (if fits && choose then chosen ++ [i] else chosen) none) := by
      intro choose
      simp only [runCalls, Call.run, ← h.embeds, he, Result.ok_bind]
      rfl
    refine ⟨⟨Option.some_ne_none _, ?_⟩, ?_⟩
    · split <;> trivial
    · rw [hask]
      split at hok
      · rename_i hfits
        rw [Bool.not_eq_true'] at hfits
        cases hok
        rw [hfits, Bool.false_and, if_neg Bool.false_ne_true]
        exact ⟨chosen, none, rfl, h.congr rfl rfl rfl rfl⟩
      · rename_i hfits
        rw [Bool.not_eq_true', Bool.not_eq_false] at hfits
        rw [hfits, Bool.true_and]
        split at hok
        · cases hok
        · rename_i currEmbedsStart currEmbedsEnd hrange
          have hneeds : needsItem a f plan = decide (currEmbedsEnd - currEmbedsStart ≠ 0) := by
            rw [needsItem, hrange]
          split at hok
          · rename_i hnone
            cases hok
            rw [hneeds, decide_eq_false (not_not.mpr hnone), if_neg Bool.false_ne_true]
            exact ⟨chosen, none, rfl, h.congr rfl rfl rfl rfl⟩
          · rename_i hsome
            rw [hneeds, decide_eq_true hsome, if_pos rfl]
            split at hok
            · cases hok
              refine ⟨chosen ++ [i], none, rfl, h.choose hf ?_ rfl rfl⟩
              rw [List.append_assoc]
            · cases hok
              refine ⟨chosen ++ [i], none, rfl, h.choose hf ?_ rfl rfl⟩
              rw [List.append_assoc, List.append_assoc]
              exact List.perm_append_comm.append_left _

theorem visitItem_calls (hd : c.isEncoderDecoder = false) (h : Tracks plan request chosen)
    (hf : request.mmFeatures[i]? = some f)
    (hok : visitItem c hasCacheItem request a b f i plan = .ok (goOn, plan')) (missed : Option Nat) :
    Follows cacheSize request (visitItemCalls c request a b f i plan) plan chosen missed plan' := by
  unfold visitItem at hok
  unfold visitItemCalls
  dsimp only at hok ⊢
  rw [hd] at hok ⊢
  split at hok
  · rename_i hpast
    cases hok
    rw [if_pos hpast]
    exact h.follows rfl _
  · rename_i hpast
    rw [if_neg (fun hand => Bool.noConfusion hand.1)] at hok
    rw [if_neg hpast, if_neg (fun hand => Bool.noConfusion hand.1)]
    split at hok
    · rename_i hdone
      cases hok
      rw [if_pos hdone]
      exact h.follows rfl _
    · rename_i hdone
      rw [if_neg hdone]
      split at hok
      · rename_i hold
        cases hok
        rw [if_pos hold]
        exact h.follows rfl _
      · rename_i hnew
        rw [if_neg hnew]
        simp only [Bool.not_false, Bool.true_and, List.contains_iff_mem, h.hashes] at hnew
        simp only [Result.bind_eq_ok, Prod.exists] at hok
        obtain ⟨hit, e, he, hok⟩ := hok
        have hcheck : Call.run cacheSize plan.encoder (.checking request chosen missed)
            (.checkAndUpdateCache i) = .ok (e, .checking request chosen (if hit then none else some i)) := by
          have hget : Result.getItem request.mmFeatures i = .ok f := Result.getItem_eq_ok.mpr hf
          simp only [Call.run, mmHash, hget, Result.ok_bind, pure_bind, he]
          rfl
        have hallowed : (Call.checkAndUpdateCache i).Allowed (.checking request chosen missed) := by
          unfold Call.Allowed
          dsimp only
          rw [hf]
          exact hnew
        rw [he, Result.collect_ok]
        unfold Follows
        rw [Ordered, runCalls, hcheck]
        cases hit with
        | true =>
          cases hok
          exact ⟨⟨hallowed, trivial⟩, chosen, none, rfl, h.congr rfl rfl rfl rfl⟩
        | false =>
          have hrest : Tracks { plan with encoder := e } request chosen := h.congr rfl rfl rfl rfl
          obtain ⟨hordered, hrun⟩ : Follows cacheSize request (addItemCalls c a f { plan with encoder := e })
            { plan with encoder := e } chosen (some i) plan' := addItem_calls hrest hf hok
          exact ⟨⟨hallowed, hordered⟩, hrun⟩

theorem visitItems_calls (hd : c.isEncoderDecoder = false) (h : Tracks plan request chosen)
    {items : List MultiModalFeatureSpec} (hitems : request.mmFeatures.drop i = items)
    (hok : visitItems c hasCacheItem request a b items i plan = .ok plan') (missed : Option Nat) :
    Follows cacheSize request (visitItemsCalls c hasCacheItem request a b items i plan) plan chosen missed plan' := by
  induction items generalizing i plan chosen missed with
  | nil =>
    cases hok
    exact h.follows rfl _
  | cons f items ih =>
    have hf : request.mmFeatures[i]? = some f := by
      rw [← List.head?_drop, hitems]
      rfl
    have hrest : request.mmFeatures.drop (i + 1) = items := by rw [← List.tail_drop, hitems, List.tail_cons]
    simp only [visitItems, Result.bind_eq_ok, Prod.exists] at hok
    obtain ⟨goOn, plan₁, hvisit, hok⟩ := hok
    obtain ⟨hordered, chosen₁, missed₁, hrun, htracks⟩ :
        Follows cacheSize request (visitItemCalls c request a b f i plan) plan chosen missed plan₁ :=
      visitItem_calls hd h hf hvisit missed
    unfold visitItemsCalls
    rw [hvisit, Result.collect_ok]
    dsimp only
    split at hok
    · rename_i hgo
      rw [if_pos hgo]
      obtain ⟨hordered', chosen', missed', hrun', htracks'⟩ := ih htracks hrest hok missed₁
      obtain ⟨hall, hruns⟩ := hordered.append hrun hordered' hrun'
      exact ⟨hall, chosen', missed', hruns, htracks'⟩
    · rename_i hgo
      cases hok
      rw [if_neg hgo, List.append_nil]
      exact ⟨hordered, chosen₁, missed₁, hrun, htracks⟩

end EncoderPlan

namespace EncoderCacheManager

/-- The items that are still to be allocated. -/
def Turn.Left (t : Turn) (request : Request) (left : List Nat) : Prop :=
  (∃ missed, t = .checking request left missed) ∨ t = .allocating request left

theorem allocate_calls {t : Turn} (cacheSize : Nat) (ht : t.Left request chosen) (hi : i ∈ chosen)
    (hok : e.allocate request i = .ok e') :
    (Call.allocate i).Allowed t ∧
      Call.run cacheSize e t (.allocate i) = .ok (e', .allocating request (chosen.erase i)) := by
  rcases ht with ⟨missed, rfl⟩ | rfl
  · refine ⟨hi, ?_⟩
    rw [Call.run, hok]
    rfl
  · refine ⟨hi, ?_⟩
    rw [Call.run, hok]
    rfl

theorem allocateEncoder_calls {t : Turn} {inputs : List Nat} (cacheSize : Nat) (ht : t.Left request chosen)
    (hperm : chosen.Perm (inputs ++ rest)) (hok : Step.allocateEncoder request inputs e = .ok e') :
    ∃ t' left, Ordered cacheSize (inputs.map .allocate) e t ∧
      runCalls cacheSize (inputs.map .allocate) e t = .ok (e', t') ∧ t'.Left request left ∧
      left.Perm rest := by
  induction inputs generalizing e t chosen with
  | nil =>
    cases hok
    exact ⟨t, chosen, trivial, rfl, ht, hperm⟩
  | cons i inputs ih =>
    simp only [Step.allocateEncoder, Result.bind_eq_ok] at hok
    obtain ⟨e₁, he₁, hok⟩ := hok
    have hi : i ∈ chosen := hperm.mem_iff.mpr List.mem_cons_self
    obtain ⟨hallowed, hrun⟩ := allocate_calls cacheSize ht hi he₁
    have hrest : (chosen.erase i).Perm (inputs ++ rest) := by
      have hcons := (List.perm_cons_erase hi).symm.trans hperm
      exact hcons.cons_inv
    obtain ⟨t', left, hordered, hruns, hleft, hperm'⟩ := ih (.inr rfl) hrest hok
    refine ⟨t', left, ⟨hallowed, ?_⟩, ?_, hleft, hperm'⟩
    · rw [hrun]
      exact hordered
    · rw [List.map_cons, runCalls, hrun]
      exact hruns

end EncoderCacheManager

theorem Scheduler.tryScheduleEncoderInputs_calls {env : Outside} {s : Scheduler} {a n budget : Int}
    {plan : EncoderPlan} (cacheSize : Nat) (t : Turn) (hd : c.isEncoderDecoder = false)
    (hok : tryScheduleEncoderInputs c env s request a n budget = .ok plan) :
    Ordered cacheSize (tryScheduleEncoderInputsCalls c env s request a n budget) s.encoderCacheManager t ∧
      ∃ chosen missed, runCalls cacheSize (tryScheduleEncoderInputsCalls c env s request a n budget)
          s.encoderCacheManager t = .ok (plan.encoder, .checking request chosen missed) ∧
        chosen.Perm (plan.encoderInputsToSchedule ++ plan.externalLoadEncoderInput) := by
  have hstart : EncoderPlan.Tracks
      { encoder := s.encoderCacheManager, numNewTokens := n, encoderComputeBudget := budget } request [] :=
    ⟨.refl _, fun _ => Iff.rfl, rfl⟩
  unfold tryScheduleEncoderInputs at hok
  unfold tryScheduleEncoderInputsCalls
  dsimp only at hok
  split at hok
  · rename_i hidle
    cases hok
    rw [if_pos hidle]
    exact ⟨⟨trivial, trivial⟩, [], none, rfl, hstart.inputs⟩
  · rename_i hidle
    rw [if_neg hidle]
    obtain ⟨hordered, chosen, missed, hrun, htracks⟩ :=
      @EncoderPlan.visitItems_calls cacheSize _ _ _ 0 _ _ _ _ _ hd hstart _ rfl hok none
    exact ⟨⟨trivial, hordered⟩, chosen, missed, hrun, htracks.inputs⟩

theorem Step.scheduleEncoder_calls {st st' : Step} {plan : EncoderPlan} {missed : Option Nat} (cacheSize : Nat)
    (hchosen : chosen.Perm (plan.encoderInputsToSchedule ++ plan.externalLoadEncoderInput))
    (hok : st.scheduleEncoder request plan = .ok st') :
    Ordered cacheSize (scheduleEncoderCalls plan) st.sched.encoderCacheManager (.checking request chosen missed) ∧
      ∃ t', runCalls cacheSize (scheduleEncoderCalls plan) st.sched.encoderCacheManager
          (.checking request chosen missed) = .ok (st'.sched.encoderCacheManager, t') ∧ t'.Left request [] := by
  simp only [scheduleEncoder, Result.bind_eq_ok] at hok
  obtain ⟨e₁, he₁, e₂, he₂, hok⟩ := hok
  have hencoder : st'.sched.encoderCacheManager = e₂ := by
    split at hok
    · cases hok
      rfl
    · cases hok
      rfl
  obtain ⟨t₁, left, hordered₁, hrun₁, hleft₁, hperm₁⟩ :=
    allocateEncoder_calls cacheSize (.inl ⟨missed, rfl⟩) hchosen he₁
  have hperm₁ : left.Perm (plan.externalLoadEncoderInput ++ []) := by rwa [List.append_nil]
  obtain ⟨t₂, left₂, hordered₂, hrun₂, hleft₂, hperm₂⟩ := allocateEncoder_calls cacheSize hleft₁ hperm₁ he₂
  obtain rfl := hperm₂.eq_nil
  rw [hencoder]
  obtain ⟨hall, hruns⟩ := hordered₁.append hrun₁ hordered₂ hrun₂
  exact ⟨hall, t₂, hruns, hleft₂⟩

theorem EncoderCacheManager.free_calls (cacheSize : Nat) (preempted : List Request) (t : Turn) :
    Ordered cacheSize (preempted.map .free) e t ∧
      runCalls cacheSize (preempted.map .free) e t = .ok (preempted.foldl free e, t) := by
  induction preempted generalizing e with
  | nil => exact ⟨trivial, rfl⟩
  | cons r preempted ih => exact ⟨⟨trivial, ih.1⟩, ih.2⟩

/-- From the look at a request until its inputs are allocated, the calls come in order, whoever is preempted in
between: what is chosen is what is planned, and all of it is allocated. -/
theorem Step.scheduleEncoder_ordered {env : Outside} {s : Scheduler} {st st' : Step} {a n budget : Int}
    {plan : EncoderPlan} (cacheSize : Nat) (t : Turn) (preempted : List Request)
    (hd : c.isEncoderDecoder = false)
    (hplan : Scheduler.tryScheduleEncoderInputs c env s request a n budget = .ok plan)
    (hst : st.sched.encoderCacheManager = preempted.foldl free plan.encoder)
    (hok : st.scheduleEncoder request plan = .ok st') :
    Ordered cacheSize (Scheduler.tryScheduleEncoderInputsCalls c env s request a n budget ++
        (preempted.map .free ++ scheduleEncoderCalls plan)) s.encoderCacheManager t ∧
      (∃ chosen missed, runCalls cacheSize (Scheduler.tryScheduleEncoderInputsCalls c env s request a n budget)
          s.encoderCacheManager t = .ok (plan.encoder, .checking request chosen missed) ∧
        chosen.Perm (plan.encoderInputsToSchedule ++ plan.externalLoadEncoderInput)) ∧
      ∃ t', runCalls cacheSize (Scheduler.tryScheduleEncoderInputsCalls c env s request a n budget ++
          (preempted.map .free ++ scheduleEncoderCalls plan)) s.encoderCacheManager t =
        .ok (st'.sched.encoderCacheManager, t') ∧ t'.Left request [] := by
  obtain ⟨hfirst, chosen, missed, hrun, hchosen⟩ := Scheduler.tryScheduleEncoderInputs_calls cacheSize t hd hplan
  obtain ⟨hfree, hfreed⟩ := free_calls (e := plan.encoder) cacheSize preempted (.checking request chosen missed)
  rw [← hst] at hfreed
  obtain ⟨hlast, t', hrun', hleft⟩ := @scheduleEncoder_calls _ _ _ _ _ missed cacheSize hchosen hok
  obtain ⟨hrest, hruns⟩ := hfree.append hfreed hlast hrun'
  obtain ⟨hall, hruns⟩ := hfirst.append hrun hrest hruns
  exact ⟨hall, ⟨chosen, missed, hrun, hchosen⟩, t', hruns, hleft⟩

theorem Step.scheduleEncoder_ordered_imageAtEnd :
    ∃ plan st', Scheduler.tryScheduleEncoderInputs EncoderPlan.drafting {} (Scheduler.init EncoderPlan.drafting)
        EncoderPlan.imageAtEnd 0 5 (8 : Nat) = .ok plan ∧ plan.encoderInputsToSchedule = [0] ∧
      Step.scheduleEncoder { sched := { Scheduler.init EncoderPlan.drafting with encoderCacheManager := plan.encoder }
                             tokenBudget := 5, encoderComputeBudget := 8 } EncoderPlan.imageAtEnd plan = .ok st' ∧
      st'.sched.encoderCacheManager.cached.get? "image" = some ["a"] ∧
      ∃ t, runCalls 8 (Scheduler.tryScheduleEncoderInputsCalls EncoderPlan.drafting {}
          (Scheduler.init EncoderPlan.drafting) EncoderPlan.imageAtEnd 0 5 (8 : Nat) ++ Step.scheduleEncoderCalls plan)
        (EncoderCacheManager.init false 8) .idle = .ok (st'.sched.encoderCacheManager, t) := by
  obtain ⟨⟨plan, st'⟩, hok, hget⟩ := Result.exists_of_holds (x := do
      let plan ← Scheduler.tryScheduleEncoderInputs EncoderPlan.drafting {} (Scheduler.init EncoderPlan.drafting)
        EncoderPlan.imageAtEnd 0 5 (8 : Nat)
      let sched := { Scheduler.init EncoderPlan.drafting with encoderCacheManager := plan.encoder }
      let st ← Step.scheduleEncoder { sched, tokenBudget := 5, encoderComputeBudget := 8 } EncoderPlan.imageAtEnd plan
      return (plan, st))
    (p := fun x => x.1.encoderInputsToSchedule = [0] ∧
      x.2.sched.encoderCacheManager.cached.get? "image" = some ["a"]) (by decide +kernel)
  simp only [Result.bind_eq_ok, Result.pure_eq_ok, Prod.mk.injEq] at hok
  obtain ⟨plan, hplan, st', hok, rfl, rfl⟩ := hok
  rw [decide_eq_true_eq] at hget
  obtain ⟨-, -, t, hrun, -⟩ := scheduleEncoder_ordered 8 .idle [] rfl hplan rfl hok
  exact ⟨plan, st', hplan, hget.1, hok, hget.2, t, hrun⟩

end Vllm
