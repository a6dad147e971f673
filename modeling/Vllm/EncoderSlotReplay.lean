import Vllm.EncoderAccounting
import Vllm.EncoderSlotCalls
import Vllm.RunningFrame

namespace Vllm

open EncoderCacheManager

structure EncoderCacheManager.Solvent (e : EncoderCacheManager) : Prop where
  encoderDecoder : e.isEncoderDecoder = true
  nonneg : 0 ≤ e.numFreeSlots

structure Replays (calls : List EncoderCall) (e e' : EncoderCacheManager) : Prop where
  run : calls.foldlM EncoderCall.run e = .ok e'
  solvent : e'.Solvent

namespace Replays

variable {calls calls' : List EncoderCall} {e e' e'' : EncoderCacheManager}

theorem nil (h : e.Solvent) : Replays [] e e := ⟨rfl, h⟩

theorem append (h : Replays calls e e') (h' : Replays calls' e' e'') : Replays (calls ++ calls') e e'' where
  run := by
    rw [List.foldlM_append, h.run]
    exact h'.run
  solvent := h'.solvent

end Replays

def Enacts (turns : List EncoderTurn) (e e' : EncoderCacheManager) : Prop :=
  Replays (turns.flatMap EncoderTurn.calls) e e'

namespace Enacts

variable {turns turns' : List EncoderTurn} {turn : EncoderTurn} {e e' e'' : EncoderCacheManager}

theorem nil (h : e.Solvent) : Enacts [] e e := Replays.nil h

theorem single (h : Replays turn.calls e e') : Enacts [turn] e e' := by
  rw [Enacts, List.flatMap_singleton]
  exact h

theorem append (h : Enacts turns e e') (h' : Enacts turns' e' e'') : Enacts (turns ++ turns') e e'' := by
  rw [Enacts, List.flatMap_append]
  exact Replays.append h h'

end Enacts

namespace EncoderCacheManager

variable {e e' : EncoderCacheManager} {request : Request} {r : Ref} {i : Nat}

theorem freeEncoderInput_eq (hd : e.isEncoderDecoder = true) (request : Request) (i : Nat) :
    e.freeEncoderInput request i = { e with numFreeSlots := e.numFreeSlots + request.getNumEncoderEmbeds i } :=
  if_pos hd

theorem foldl_freeEncoderInput_replays (h : e.Solvent) (r : Ref) (request : Request) (l : List Nat) :
    Replays (l.map (.freeEncoderInput r request)) e (l.foldl (fun e i => e.freeEncoderInput request i) e) ∧
      e.numFreeSlots ≤ (l.foldl (fun e i => e.freeEncoderInput request i) e).numFreeSlots := by
  induction l generalizing e with
  | nil => exact ⟨.nil h, Int.le_refl _⟩
  | cons i l ih =>
    have heq := freeEncoderInput_eq h.encoderDecoder request i
    have hle : e.numFreeSlots ≤ (e.freeEncoderInput request i).numFreeSlots := by
      rw [heq]
      exact Int.le_add_of_nonneg_right (Int.natCast_nonneg _)
    have h₁ : (e.freeEncoderInput request i).Solvent := by
      refine ⟨?_, Int.le_trans h.nonneg hle⟩
      rw [heq]
      exact h.encoderDecoder
    obtain ⟨hrest, hle'⟩ := ih h₁
    rw [List.map_cons, List.foldl_cons]
    exact ⟨⟨hrest.run, hrest.solvent⟩, Int.le_trans hle hle'⟩

theorem free_replays (h : e.Solvent) (r : Ref) (request : Request) :
    Replays (EncoderCall.free r request) e (e.free request) ∧ e.numFreeSlots ≤ (e.free request).numFreeSlots := by
  unfold EncoderCacheManager.free getCachedInputIds
  rw [if_pos h.encoderDecoder]
  exact foldl_freeEncoderInput_replays h r request _

theorem allocateEncoder_replays {inputs : List Nat} (hd : e.isEncoderDecoder = true)
    (hok : Step.allocateEncoder request inputs e = .ok e') :
    (inputs.map (EncoderCall.allocate r request)).foldlM EncoderCall.run e = .ok e' ∧
      e'.isEncoderDecoder = true ∧ e'.numFreeSlots = e.numFreeSlots - numEmbeds request inputs := by
  induction inputs generalizing e with
  | nil =>
    cases hok
    exact ⟨rfl, hd, (Int.sub_zero _).symm⟩
  | cons i inputs ih =>
    simp only [Step.allocateEncoder, Result.bind_eq_ok] at hok
    obtain ⟨e₁, he₁, hok⟩ := hok
    have hone := he₁
    simp only [allocate, Result.bind_eq_ok] at hone
    obtain ⟨hash, -, hone⟩ := hone
    rw [if_pos hd] at hone
    cases hone
    obtain ⟨hrun, hd', hfree⟩ := ih (by exact hd) hok
    refine ⟨?_, hd', ?_⟩
    · rw [List.map_cons, List.foldlM_cons]
      have hcall : EncoderCall.run e (.allocate r request i) = _ := he₁
      rw [hcall]
      exact hrun
    · rw [hfree, numEmbeds, numEmbeds, List.map_cons, List.sum_cons]
      dsimp only
      omega

end EncoderCacheManager

/-! What is planned for a request fits into the free slots. -/

namespace EncoderPlan

variable {c : SchedulerConfig} {hasCacheItem : String → Bool} {request : Request} {a b : Int}
  {f : MultiModalFeatureSpec} {i : Nat} {plan plan' : EncoderPlan} {goOn : Bool} {e : EncoderCacheManager}

structure Fits (request : Request) (e : EncoderCacheManager) (plan : EncoderPlan) : Prop where
  encoder : plan.encoder = e
  embeds : plan.numEmbedsToSchedule = numEmbeds request plan.inputs
  room : plan.numEmbedsToSchedule ≤ e.numFreeSlots

theorem numEmbeds_append {l l' : List Nat} :
    numEmbeds request (l ++ l') = numEmbeds request l + numEmbeds request l' := by
  rw [numEmbeds, List.map_append, List.sum_append, numEmbeds, numEmbeds]

theorem addItem_fits (hd : e.isEncoderDecoder = true) (h : Fits request e plan) (hf : request.mmFeatures[i]? = some f)
    (hok : addItem c hasCacheItem request a b f i plan = .ok (goOn, plan')) : Fits request e plan' := by
  have hsize : request.getNumEncoderEmbeds i = f.mmPosition.getNumEmbeds := by
    rw [Request.getNumEncoderEmbeds, hf]
  unfold addItem at hok
  dsimp only at hok
  split at hok
  · cases hok
    exact ⟨h.encoder, h.embeds, h.room⟩
  · simp only [Result.bind_eq_ok, Prod.exists] at hok
    obtain ⟨fits, e₁, he₁, hok⟩ := hok
    have hask : e₁ = e ∧ (fits = true →
        plan.numEmbedsToSchedule + f.mmPosition.getNumEmbeds ≤ e.numFreeSlots) := by
      unfold canAllocate at he₁
      dsimp only at he₁
      rw [h.encoder, hsize, hd] at he₁
      split at he₁
      · cases he₁
        exact ⟨rfl, nofun⟩
      · split at he₁
        · cases he₁
          exact ⟨rfl, fun _ => by omega⟩
        · cases he₁
          exact ⟨rfl, nofun⟩
    obtain ⟨rfl, hroom⟩ := hask
    split at hok
    · cases hok
      exact ⟨rfl, h.embeds, h.room⟩
    · rename_i hfits
      rw [Bool.not_eq_true', Bool.not_eq_false] at hfits
      split at hok
      · cases hok
      · split at hok
        · cases hok
          exact ⟨rfl, h.embeds, h.room⟩
        · have hone : numEmbeds request [i] = f.mmPosition.getNumEmbeds := by
            rw [numEmbeds, List.map_singleton, List.sum_singleton, hsize]
          have hembeds := h.embeds
          unfold inputs at hembeds
          rw [numEmbeds_append] at hembeds
          split at hok
          · cases hok
            refine ⟨rfl, ?_, hroom hfits⟩
            unfold inputs
            dsimp only
            rw [numEmbeds_append, numEmbeds_append, hone]
            omega
          · cases hok
            refine ⟨rfl, ?_, hroom hfits⟩
            unfold inputs
            dsimp only
            rw [numEmbeds_append, numEmbeds_append, hone]
            omega

theorem visitItem_fits (hd : e.isEncoderDecoder = true) (h : Fits request e plan)
    (hf : request.mmFeatures[i]? = some f)
    (hok : visitItem c hasCacheItem request a b f i plan = .ok (goOn, plan')) : Fits request e plan' := by
  unfold visitItem at hok
  dsimp only at hok
  split at hok
  · cases hok
    exact h
  · split at hok
    · simp only [Result.bind_eq_ok, Result.pure_eq_ok, Prod.mk.injEq] at hok
      obtain ⟨-, -, -, rfl⟩ := hok
      exact h
    · split at hok
      · cases hok
        exact h
      · split at hok
        · cases hok
          exact h
        · simp only [Result.bind_eq_ok, Prod.exists] at hok
          obtain ⟨hit, e₁, he₁, hok⟩ := hok
          unfold checkAndUpdateCache at he₁
          rw [h.encoder, if_pos hd] at he₁
          cases he₁
          have hsame : Fits request e { plan with encoder := e } := ⟨rfl, h.embeds, h.room⟩
          exact addItem_fits hd hsame hf hok

theorem visitItems_fits (hd : e.isEncoderDecoder = true) (h : Fits request e plan)
    {items : List MultiModalFeatureSpec} (hitems : request.mmFeatures.drop i = items)
    (hok : visitItems c hasCacheItem request a b items i plan = .ok plan') : Fits request e plan' := by
  induction items generalizing i plan with
  | nil =>
    cases hok
    exact h
  | cons f items ih =>
    have hf : request.mmFeatures[i]? = some f := by
      rw [← List.head?_drop, hitems]
      rfl
    have hrest : request.mmFeatures.drop (i + 1) = items := by rw [← List.tail_drop, hitems, List.tail_cons]
    simp only [visitItems, Result.bind_eq_ok, Prod.exists] at hok
    obtain ⟨goOn, plan₁, hvisit, hok⟩ := hok
    have hfirst : Fits request e plan₁ := visitItem_fits hd h hf hvisit
    split at hok
    · exact ih hfirst hrest hok
    · cases hok
      exact hfirst

end EncoderPlan

theorem Scheduler.tryScheduleEncoderInputs_fits {c : SchedulerConfig} {env : Outside} {s : Scheduler}
    {request : Request} {a n budget : Int} {plan : EncoderPlan} (h : s.encoderCacheManager.Solvent)
    (hok : tryScheduleEncoderInputs c env s request a n budget = .ok plan) :
    EncoderPlan.Fits request s.encoderCacheManager plan := by
  have hstart : EncoderPlan.Fits request s.encoderCacheManager
      { encoder := s.encoderCacheManager, numNewTokens := n, encoderComputeBudget := budget } := ⟨rfl, rfl, h.nonneg⟩
  unfold tryScheduleEncoderInputs at hok
  dsimp only at hok
  split at hok
  · cases hok
    exact hstart
  · exact EncoderPlan.visitItems_fits h.encoderDecoder hstart List.drop_zero hok

namespace Step

open Scheduler

variable {c : SchedulerConfig} {env : Outside} {st st' st₁ : Step} {r v : Ref}

theorem scheduleEncoder_replays {request : Request} {plan : EncoderPlan} (h : st.sched.encoderCacheManager.Solvent)
    (hroom : numEmbeds request plan.inputs ≤ st.sched.encoderCacheManager.numFreeSlots)
    (hok : st.scheduleEncoder request plan = .ok st') :
    Enacts [.scheduled r request plan] st.sched.encoderCacheManager st'.sched.encoderCacheManager := by
  obtain ⟨e₁, e, he₁, he, hst⟩ := scheduleEncoder_eq_ok hok
  have hencoder : st'.sched.encoderCacheManager = e := by
    rw [hst]
    split
    · rfl
    · rfl
  obtain ⟨hrun₁, hd₁, hfree₁⟩ := @allocateEncoder_replays _ _ _ r _ h.encoderDecoder he₁
  obtain ⟨hrun, hd, hfree⟩ := @allocateEncoder_replays _ _ _ r _ hd₁ he
  unfold EncoderPlan.inputs at hroom
  rw [EncoderPlan.numEmbeds_append] at hroom
  rw [hencoder]
  refine .single ⟨?_, hd, by omega⟩
  rw [EncoderTurn.calls, EncoderPlan.inputs, List.map_append, List.foldlM_append, hrun₁]
  exact hrun

theorem preempt_replays (takenBack : Bool) (h : st.sched.encoderCacheManager.Solvent) (hok : st.preempt c v = .ok st') :
    Enacts [.preempted v (st.sched.objs v) takenBack] st.sched.encoderCacheManager
      st'.sched.encoderCacheManager ∧
      st.sched.encoderCacheManager.numFreeSlots ≤ st'.sched.encoderCacheManager.numFreeSlots := by
  obtain ⟨s, hs, rfl⟩ := preempt_eq_ok hok
  obtain ⟨-, rfl⟩ := preemptRequest_eq_ok hs
  obtain ⟨hreplay, hle⟩ := free_replays h v (st.sched.objs v)
  exact ⟨.single hreplay, hle⟩

theorem allocateOrPreempt_replays {n : Int} {fuel j j' : Nat} {blocks : Option (List (List BlockId))}
    (h : st.sched.encoderCacheManager.Solvent)
    (hok : allocateOrPreempt c r n fuel j st = .ok (blocks, j', st')) :
    Enacts (allocateOrPreemptTurns c r n fuel j st) st.sched.encoderCacheManager st'.sched.encoderCacheManager ∧
      st.sched.encoderCacheManager.numFreeSlots ≤ st'.sched.encoderCacheManager.numFreeSlots ∧
      ∀ x, (st'.sched.objs x).mmFeatures = (st.sched.objs x).mmFeatures := by
  induction fuel generalizing j st with
  | zero => cases hok
  | succ fuel ih =>
    simp only [allocateOrPreempt, Result.bind_eq_ok, Prod.exists] at hok
    obtain ⟨newBlocks, kv, halloc, hok⟩ := hok
    simp only [allocateOrPreemptTurns, halloc, Result.collect_ok]
    cases newBlocks with
    | some blocks =>
      cases hok
      exact ⟨.nil h, Int.le_refl _, fun _ => rfl⟩
    | none =>
      simp only [Result.bind_eq_ok, Prod.exists] at hok
      obtain ⟨v, j₁, st₁, hv, st₂, hp, hok⟩ := hok
      obtain ⟨running, hsched, -⟩ := (takeVictim_takes hv).sched
      have he : st₁.sched.encoderCacheManager = st.sched.encoderCacheManager := by
        rw [hsched]
        rfl
      have hobjs : st₁.sched.objs = st.sched.objs := by
        rw [hsched]
        rfl
      have h₁ : st₁.sched.encoderCacheManager.Solvent := by
        rw [he]
        exact h
      obtain ⟨hfree, hle⟩ := preempt_replays (c.policy = .priority ∧ v ∈ st.scheduledRunningReqs) h₁ hp
      have hfeatures : ∀ x, (st₂.sched.objs x).mmFeatures = (st.sched.objs x).mmFeatures := by
        intro x
        obtain ⟨s, hs, rfl⟩ := preempt_eq_ok hp
        obtain ⟨-, rfl⟩ := preemptRequest_eq_ok hs
        dsimp only
        rw [Function.update_apply]
        split
        · rename_i heq
          rw [heq, hobjs]
          rfl
        · rw [hobjs]
      simp only [hv, hp, Result.collect_ok, Option.isSome_none, Bool.false_eq_true, if_false]
      rw [he] at hfree hle
      split at hok
      · rename_i heq
        cases hok
        rw [if_pos heq]
        exact ⟨hfree, hle, hfeatures⟩
      · rename_i hne
        rw [if_neg hne]
        obtain ⟨hrest, hle', hfeatures'⟩ := ih hfree.solvent hok
        exact ⟨hfree.append hrest, Int.le_trans hle hle', fun x => (hfeatures' x).trans (hfeatures x)⟩

theorem numEmbeds_congr {q q' : Request} (h : q'.mmFeatures = q.mmFeatures) (l : List Nat) :
    numEmbeds q' l = numEmbeds q l := by
  unfold numEmbeds Request.getNumEncoderEmbeds
  rw [h]

theorem scheduleRunningRequest_replays {n : Int} {blocks : List (List BlockId)} {plan : EncoderPlan}
    (h : st.sched.encoderCacheManager.Solvent)
    (hroom : numEmbeds (st.sched.objs r) plan.inputs ≤ st.sched.encoderCacheManager.numFreeSlots)
    (hok : st.scheduleRunningRequest r n blocks plan = .ok st') :
    Enacts [.scheduled r (st.sched.objs r) plan] st.sched.encoderCacheManager
      st'.sched.encoderCacheManager := by
  unfold scheduleRunningRequest at hok
  dsimp only at hok
  have hreplay := @scheduleEncoder_replays _ _ r _ _ (by exact h) (by exact hroom) hok
  exact hreplay

theorem visitRunning_replays {j j' : Nat} {goOn : Bool} (h : st.sched.encoderCacheManager.Solvent)
    (hok : st.visitRunning c env j r = .ok (goOn, j', st')) :
    Enacts (st.visitRunningTurns c env j r) st.sched.encoderCacheManager st'.sched.encoderCacheManager := by
  unfold visitRunning at hok
  unfold visitRunningTurns
  dsimp only at hok ⊢
  split at hok
  · rename_i hmax
    cases hok
    rw [if_pos hmax]
    exact .nil h
  · rename_i hmax
    simp only [Result.bind_eq_ok] at hok
    obtain ⟨plan, hplan, n, hn, hok⟩ := hok
    have hfits := tryScheduleEncoderInputs_fits h hplan
    rw [if_neg hmax, hplan, Result.collect_ok, hn, Result.collect_ok]
    have hsame : (st.withEncoder plan.encoder).sched.encoderCacheManager = st.sched.encoderCacheManager :=
      hfits.encoder
    split at hok
    · rename_i hzero
      cases hok
      rw [if_pos hzero, hsame]
      exact .nil h
    · rename_i hzero
      simp only [Result.bind_eq_ok, Prod.exists] at hok
      obtain ⟨newBlocks, j₁, st₁, halloc, hok⟩ := hok
      obtain ⟨hreplay, hle, hfeatures⟩ := allocateOrPreempt_replays (hsame.symm ▸ h) halloc
      rw [if_neg hzero, halloc, Result.collect_ok]
      rw [hsame] at hreplay hle
      cases newBlocks with
      | none =>
        cases hok
        exact hreplay.append (.nil hreplay.solvent)
      | some blocks =>
        simp only [Result.bind_eq_ok, Result.pure_eq_ok, Prod.mk.injEq] at hok
        obtain ⟨st₂, hrun, -, -, rfl⟩ := hok
        refine hreplay.append (scheduleRunningRequest_replays hreplay.solvent ?_ hrun)
        have hroom := hfits.room
        rw [hfits.embeds] at hroom
        rw [numEmbeds_congr (hfeatures r)]
        exact Int.le_trans hroom hle

theorem scheduleRunning_replays {fuel j : Nat} (h : st.sched.encoderCacheManager.Solvent)
    (hok : st.scheduleRunning c env fuel j = .ok st') :
    Enacts (st.scheduleRunningTurns c env fuel j) st.sched.encoderCacheManager st'.sched.encoderCacheManager := by
  induction fuel generalizing j st with
  | zero =>
    cases hok
    exact .nil h
  | succ fuel ih =>
    unfold scheduleRunning at hok
    unfold scheduleRunningTurns
    split at hok
    · rename_i hbudget
      rw [if_pos hbudget]
      cases hr : st.sched.running[j]? with
      | none =>
        rw [hr] at hok
        cases hok
        exact .nil h
      | some r =>
        simp only [hr, Result.bind_eq_ok, Prod.exists] at hok
        obtain ⟨goOn, j₁, st₁, hvisit, hok⟩ := hok
        have hfirst := visitRunning_replays h hvisit
        dsimp only
        rw [hvisit, Result.collect_ok]
        refine hfirst.append ?_
        split at hok
        · rename_i hgo
          rw [if_pos hgo]
          exact ih hfirst.solvent hok
        · rename_i hgo
          cases hok
          rw [if_neg hgo]
          exact .nil hfirst.solvent
    · rename_i hbudget
      cases hok
      rw [if_neg hbudget]
      exact .nil h

theorem placeWaiting_replays {skipped goOn : Bool} {n : Int} {pre : ComputedPrefix} {plan : EncoderPlan}
    (h : st.sched.encoderCacheManager.Solvent) (hsel : selected st.sched skipped = some r)
    (hroom : pre.loadKvAsync = false →
      numEmbeds (st.sched.objs r) plan.inputs ≤ st.sched.encoderCacheManager.numFreeSlots)
    (hok : st.placeWaiting c skipped r n pre plan = .ok (goOn, st')) :
    Enacts (st.placeWaitingTurns c r n pre plan) st.sched.encoderCacheManager st'.sched.encoderCacheManager := by
  simp only [placeWaiting, Result.bind_eq_ok, Prod.exists] at hok
  obtain ⟨newBlocks, kv, halloc, hok⟩ := hok
  unfold placeWaitingTurns
  dsimp only
  rw [halloc, Result.collect_ok]
  cases newBlocks with
  | none =>
    cases hok
    simp only [Option.isSome_none, Bool.false_eq_true, if_false]
    refine .single ?_
    rw [EncoderTurn.calls]
    split
    · exact (free_replays h r _).1
    · exact .nil h
  | some blocks =>
    simp only [Option.isSome_some, if_true]
    dsimp only at hok
    split at hok
    · rename_i hload
      rw [if_pos hload]
      simp only [Result.bind_eq_ok, Result.pure_eq_ok, Prod.mk.injEq] at hok
      obtain ⟨st₁, hst, -, rfl⟩ := hok
      simp only [startLoad, Result.bind_eq_ok, Prod.exists, Result.pure_eq_ok] at hst
      obtain ⟨x, s, hpop, rfl⟩ := hst
      obtain ⟨-, -, waiting, skippedWaiting, rfl⟩ := popSelected_eq_ok hpop
      exact .nil h
    · rename_i hload
      rw [if_neg hload]
      simp only [Result.bind_eq_ok, Result.pure_eq_ok, Prod.mk.injEq] at hok
      obtain ⟨st₁, hst, -, rfl⟩ := hok
      obtain ⟨r', s, new, resumed, loras, hpop, -, hst⟩ := admitRequest_eq_ok hst
      obtain ⟨hsel', -, waiting, skippedWaiting, rfl⟩ := popSelected_eq_ok hpop
      have hsame : selected st.sched skipped = some r' := hsel'
      obtain rfl : r = r' := Option.some_inj.mp (hsel.symm.trans hsame)
      have hreplay := @scheduleEncoder_replays _ _ r _ _ (by exact h)
        (by exact hroom (Bool.eq_false_iff.mpr hload)) hst
      exact hreplay

theorem skipSelected_encoder {skipped : Bool} (hok : st.skipSelected c skipped = .ok st') :
    st'.sched.encoderCacheManager = st.sched.encoderCacheManager := by
  simp only [skipSelected, Result.bind_eq_ok, Prod.exists, Result.pure_eq_ok] at hok
  obtain ⟨r, s, hpop, rfl⟩ := hok
  obtain ⟨-, -, waiting, skippedWaiting, rfl⟩ := popSelected_eq_ok hpop
  rfl

theorem tryWaiting_replays {skipped goOn : Bool} (h : st.sched.encoderCacheManager.Solvent)
    (hsel : selected st.sched skipped = some r) (hok : st.tryWaiting c env skipped r = .ok (goOn, st')) :
    Enacts (st.tryWaitingTurns c env r) st.sched.encoderCacheManager st'.sched.encoderCacheManager := by
  simp only [tryWaiting, Result.bind_eq_ok, Prod.exists] at hok
  obtain ⟨pre, s, hpre, hok⟩ := hok
  unfold tryWaitingTurns
  rw [hpre, Result.collect_ok]
  have hs : s.encoderCacheManager = st.sched.encoderCacheManager ∧
      selected s skipped = selected st.sched skipped := by
    rcases computedPrefix_frame hpre with rfl | ⟨-, ext, rfl⟩
    · exact ⟨rfl, rfl⟩
    · exact ⟨rfl, rfl⟩
  obtain ⟨he, hsel'⟩ := hs
  rw [← he]
  have h : s.encoderCacheManager.Solvent := he ▸ h
  cases pre with
  | none =>
    simp only [Result.bind_eq_ok, Result.pure_eq_ok, Prod.mk.injEq] at hok
    obtain ⟨st₁, hst, -, rfl⟩ := hok
    rw [skipSelected_encoder hst]
    exact .nil h
  | some pre =>
    simp only [Result.bind_eq_ok] at hok
    obtain ⟨plan, hplan, hok⟩ := hok
    dsimp only
    rw [hplan, Result.collect_ok]
    cases plan with
    | none =>
      cases hok
      exact .nil h
    | some plan =>
      have hplanned : plan.encoder = s.encoderCacheManager ∧ (pre.loadKvAsync = false →
          numEmbeds (s.objs r) plan.inputs ≤ s.encoderCacheManager.numFreeSlots) := by
        rcases planWaiting_cases hplan with ⟨hload, hidle⟩ | ⟨-, n, -, -, hp⟩
        · refine ⟨hidle, fun hno => ?_⟩
          rw [hload] at hno
          cases hno
        · have hfits := tryScheduleEncoderInputs_fits (by exact h) hp
          exact ⟨hfits.encoder, fun _ => hfits.embeds ▸ hfits.room⟩
      obtain ⟨hidle, hroom⟩ := hplanned
      dsimp only at hok ⊢
      split at hok
      · rename_i hzero
        cases hok
        rw [if_pos hzero]
        show Enacts [] s.encoderCacheManager plan.encoder
        rw [hidle]
        exact .nil h
      · rename_i hzero
        simp only [Result.bind_eq_ok] at hok
        obtain ⟨n, hn, hok⟩ := hok
        rw [if_neg hzero]
        have hn' : alignedNewTokens c (s.objs r) plan.numNewTokens pre.numNewLocalComputedTokens
            pre.numExternalComputedTokens = .ok n := hn
        rw [hn', Result.collect_ok]
        split at hok
        · rename_i hzero
          cases hok
          rw [if_pos hzero]
          show Enacts [] s.encoderCacheManager plan.encoder
          rw [hidle]
          exact .nil h
        · rename_i hzero
          rw [if_neg hzero]
          have hplace := @placeWaiting_replays c _ _ r _ _ _ _ _ (by exact hidle.symm ▸ h)
            (by exact hsel'.trans hsel) (by exact hidle.symm ▸ hroom) hok
          show Enacts (placeWaitingTurns c (({ st with sched := s } : Step).withEncoder plan.encoder) r n pre plan)
            s.encoderCacheManager st'.sched.encoderCacheManager
          rw [← hidle]
          exact hplace

theorem visitWaiting_replays {goOn : Bool} (h : st.sched.encoderCacheManager.Solvent)
    (hok : st.visitWaiting c env = .ok (goOn, st')) :
    Enacts (st.visitWaitingTurns c env) st.sched.encoderCacheManager st'.sched.encoderCacheManager := by
  unfold visitWaiting at hok
  dsimp only at hok
  unfold visitWaitingTurns
  split at hok
  · cases hok
  · rename_i r hr
    have hsel : selected st.sched (selectsSkipped c st.sched) = some r := hr
    simp only [Result.bind_eq_ok, Prod.exists] at hok
    obtain ⟨ready, s, hpromote, hok⟩ := hok
    rw [hsel]
    dsimp only
    rw [hpromote, Result.collect_ok]
    have hready : s.encoderCacheManager = st.sched.encoderCacheManager ∧
        ∀ skipped, selected s skipped = selected st.sched skipped := by
      split at hpromote
      · rcases tryPromote_cases hpromote with ⟨-, rfl⟩ | ⟨-, -, rfl⟩ | ⟨-, -, _, _, _, _, _, rfl⟩
        · exact ⟨rfl, fun _ => rfl⟩
        · exact ⟨rfl, fun _ => rfl⟩
        · exact ⟨rfl, fun _ => rfl⟩
      · cases hpromote
        exact ⟨rfl, fun _ => rfl⟩
    obtain ⟨he, hsel'⟩ := hready
    rw [← he]
    have h : s.encoderCacheManager.Solvent := he ▸ h
    dsimp only
    split at hok
    · rename_i hskip
      rw [if_pos hskip]
      simp only [Result.bind_eq_ok, Result.pure_eq_ok, Prod.mk.injEq] at hok
      obtain ⟨st₁, hst, -, rfl⟩ := hok
      rw [skipSelected_encoder hst]
      exact .nil h
    · rename_i hskip
      rw [if_neg hskip]
      have htry := @tryWaiting_replays c env _ _ r _ _ (by exact h) (by exact (hsel' _).trans hsel) hok
      exact htry

theorem scheduleWaiting_replays {fuel : Nat} (h : st.sched.encoderCacheManager.Solvent)
    (hok : st.scheduleWaiting c env fuel = .ok st') :
    Enacts (st.scheduleWaitingTurns c env fuel) st.sched.encoderCacheManager st'.sched.encoderCacheManager := by
  induction fuel generalizing st with
  | zero =>
    cases hok
    exact .nil h
  | succ fuel ih =>
    unfold scheduleWaiting at hok
    unfold scheduleWaitingTurns
    split at hok
    · rename_i hroom
      rw [if_pos hroom]
      simp only [Result.bind_eq_ok, Prod.exists] at hok
      obtain ⟨goOn, st₁, hvisit, hok⟩ := hok
      have hfirst := visitWaiting_replays h hvisit
      rw [hvisit, Result.collect_ok]
      dsimp only
      refine hfirst.append ?_
      split at hok
      · rename_i hgo
        rw [if_pos hgo]
        exact ih hfirst.solvent hok
      · rename_i hgo
        cases hok
        rw [if_neg hgo]
        exact .nil hfirst.solvent
    · rename_i hroom
      cases hok
      rw [if_neg hroom]
      exact .nil h

theorem scheduleRequests_replays {s : Scheduler} (h : s.encoderCacheManager.Solvent)
    (hok : scheduleRequests c env s = .ok st) :
    Enacts (scheduleRequestsTurns c env s) s.encoderCacheManager st.sched.encoderCacheManager := by
  simp only [scheduleRequests, Result.bind_eq_ok] at hok
  obtain ⟨st₁, hrunning, st₂, hloras, hok⟩ := hok
  have hrun : (start c s).scheduleRunning c env (s.running.length + 1) 0 = .ok st₁ := hrunning
  have hfirst := @scheduleRunning_replays c env _ _ _ _ (by exact h) hrun
  unfold scheduleRequestsTurns
  rw [hrun, Result.collect_ok, hloras, Result.collect_ok]
  refine hfirst.append ?_
  obtain ⟨loras, rfl⟩ := recordLoras_frame hloras
  split at hok
  · rename_i hunpaused
    rw [if_pos hunpaused]
    simp only [Result.bind_eq_ok, Result.pure_eq_ok] at hok
    obtain ⟨st₃, hwaiting, rfl⟩ := hok
    have hloop := scheduleWaiting_replays (by exact hfirst.solvent) hwaiting
    exact hloop
  · rename_i hpaused
    cases hok
    rw [if_neg hpaused]
    exact .nil hfirst.solvent

end Step

end Vllm
