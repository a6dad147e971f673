import Vllm.EncoderOwnersRun
import Vllm.EncoderSlotCalls

namespace Vllm

open EncoderCacheManager

variable {held : List EncoderInput} {r x : Ref} {q p : Request} {l : List Nat} {i : Nat}

namespace EncoderCall

def Orderly (held : List EncoderInput) (calls : List EncoderCall) : Prop :=
  SlotEvent.Orderly EncoderInput.numEmbeds held (calls.filterMap event)

instance (held : List EncoderInput) (calls : List EncoderCall) : Decidable (Orderly held calls) :=
  inferInstanceAs (Decidable (SlotEvent.Orderly _ _ _))

def heldAfter (held : List EncoderInput) (calls : List EncoderCall) : List EncoderInput :=
  (calls.filterMap event).foldl SlotEvent.hold held

variable {calls calls' : List EncoderCall}

@[simp] theorem heldAfter_nil (held : List EncoderInput) : heldAfter held [] = held := rfl

theorem heldAfter_append : heldAfter held (calls ++ calls') = heldAfter (heldAfter held calls) calls' := by
  rw [heldAfter, List.filterMap_append, List.foldl_append]
  rfl

theorem orderly_append :
    Orderly held (calls ++ calls') ↔ Orderly held calls ∧ Orderly (heldAfter held calls) calls' := by
  rw [Orderly, List.filterMap_append, SlotEvent.orderly_append]
  rfl

theorem filterMap_freeEncoderInput (r : Ref) (q : Request) (l : List Nat) :
    (l.map (.freeEncoderInput r q)).filterMap event = (l.map (q.encoderInput r)).map .giveBack := by
  rw [List.filterMap_map, List.map_map, ← List.filterMap_eq_map]
  rfl

theorem filterMap_allocate (r : Ref) (q : Request) (l : List Nat) :
    (l.map (.allocate r q)).filterMap event = (l.map (q.encoderInput r)).map .take := by
  rw [List.filterMap_map, List.map_map, ← List.filterMap_eq_map]
  rfl

end EncoderCall

open EncoderCall

theorem Request.getNumEncoderEmbeds_eq_zero (h : q.hasEncoderEmbeds = false) (i : Nat) :
    q.getNumEncoderEmbeds i = 0 := by
  by_cases hi : i < q.mmFeatures.length
  · rw [Request.hasEncoderEmbeds, List.any_eq_false] at h
    have hzero := h i (List.mem_range.mpr hi)
    rw [decide_eq_true_eq, not_not] at hzero
    exact hzero
  · rw [Request.getNumEncoderEmbeds, List.getElem?_eq_none (Nat.not_lt.mp hi)]

theorem Request.hasEncoderEmbeds_congr (h : p.mmFeatures = q.mmFeatures) : p.hasEncoderEmbeds = q.hasEncoderEmbeds := by
  unfold Request.hasEncoderEmbeds Request.getNumEncoderEmbeds
  rw [h]

theorem EncoderPlan.mem_inputs_of_coversAll {plan : EncoderPlan} (h : plan.coversAll q = true)
    (hi : q.getNumEncoderEmbeds i ≠ 0) : i ∈ plan.inputs := by
  have hlt : i < q.mmFeatures.length := by
    refine Nat.not_le.mp fun hle => hi ?_
    rw [Request.getNumEncoderEmbeds, List.getElem?_eq_none hle]
  have hcovered := List.all_eq_true.mp h i (List.mem_range.mpr hlt)
  rw [Bool.or_eq_true, decide_eq_true_eq, List.contains_iff_mem] at hcovered
  exact hcovered.resolve_left hi

def HoldsAll (held : List EncoderInput) (r : Ref) (q : Request) : Prop :=
  ∀ i, q.getNumEncoderEmbeds i ≠ 0 → q.encoderInput r i ∈ held

namespace HoldsAll

theorem congr (h : HoldsAll held r q) (hf : p.mmFeatures = q.mmFeatures) : HoldsAll held r p := by
  have heq : ∀ i, p.getNumEncoderEmbeds i = q.getNumEncoderEmbeds i := by
    intro i
    rw [Request.getNumEncoderEmbeds, hf, Request.getNumEncoderEmbeds]
  intro i hi
  have hmem := h i (heq i ▸ hi)
  rw [Request.encoderInput, heq]
  exact hmem

theorem of_none (h : q.hasEncoderEmbeds = false) : HoldsAll held r q :=
  fun i hi => absurd (q.getNumEncoderEmbeds_eq_zero h i) hi

theorem orderly_free (h : HoldsAll held r q) (hl : l.Nodup) : Orderly held (l.map (.freeEncoderInput r q)) := by
  rw [Orderly, filterMap_freeEncoderInput]
  refine SlotEvent.orderly_giveBack (hl.map fun i j hij => congrArg EncoderInput.inputId hij) fun a ha hne => ?_
  obtain ⟨i, -, rfl⟩ := List.mem_map.mp ha
  exact h i hne

theorem free (h : HoldsAll held x p) (hother : x ≠ r ∨ q.hasEncoderEmbeds = false) (l : List Nat) :
    HoldsAll (heldAfter held (l.map (.freeEncoderInput r q))) x p := by
  intro i hi
  rw [heldAfter, filterMap_freeEncoderInput]
  refine SlotEvent.mem_foldl_giveBack (h i hi) fun hmem => ?_
  obtain ⟨j, -, heq⟩ := List.mem_map.mp hmem
  rcases hother with hne | hnone
  · exact hne (congrArg EncoderInput.r heq).symm
  · have hsize : q.getNumEncoderEmbeds j = p.getNumEncoderEmbeds i := congrArg EncoderInput.numEmbeds heq
    exact hi (hsize ▸ q.getNumEncoderEmbeds_eq_zero hnone j)

theorem allocate (h : HoldsAll held x p) (r : Ref) (q : Request) (l : List Nat) :
    HoldsAll (heldAfter held (l.map (.allocate r q))) x p := by
  intro i hi
  rw [heldAfter, filterMap_allocate]
  exact SlotEvent.mem_foldl_take (.inl (h i hi))

theorem of_coversAll {plan : EncoderPlan} (h : plan.coversAll q = true) :
    HoldsAll (heldAfter held (plan.inputs.map (.allocate r q))) r q := by
  intro i hi
  rw [heldAfter, filterMap_allocate]
  exact SlotEvent.mem_foldl_take (.inr (List.mem_map_of_mem (plan.mem_inputs_of_coversAll h hi)))

end HoldsAll

theorem EncoderCall.orderly_allocate (held : List EncoderInput) (r : Ref) (q : Request) (l : List Nat) :
    Orderly held (l.map (.allocate r q)) := by
  rw [Orderly, filterMap_allocate]
  exact SlotEvent.orderly_take held _

namespace Step

open Scheduler

variable {c : SchedulerConfig} {env : Outside} {s₀ : Scheduler} {st st' st₁ : Step} {v : Ref} {n : Int}
  {turns turns' : List EncoderTurn} {plan : EncoderPlan}

structure Lends (s₀ : Scheduler) (held : List EncoderInput) (st : Step) : Prop where
  steady : Steady s₀ st.sched
  nextRef : st.sched.nextRef = s₀.nextRef
  scheduled : ∀ id ∈ st.numScheduledTokens.keys, ∀ r, s₀.requests.get? id = some r →
    (s₀.objs r).requestId = id ∧ HoldsAll held r (s₀.objs r)
  registered : ∀ r ∈ st.scheduledRunningReqs, s₀.requests.get? (s₀.objs r).requestId = some r

structure Orders (s₀ : Scheduler) (held : List EncoderInput) (turns : List EncoderTurn) (st' : Step) : Prop where
  orderly : Orderly held (turns.flatMap EncoderTurn.calls)
  lends : Lends s₀ (heldAfter held (turns.flatMap EncoderTurn.calls)) st'

theorem Lends.nil (h : Lends s₀ held st) : Orders s₀ held [] st := ⟨trivial, h⟩

theorem Orders.append (h : Orders s₀ held turns st)
    (h' : Orders s₀ (heldAfter held (turns.flatMap EncoderTurn.calls)) turns' st') :
    Orders s₀ held (turns ++ turns') st' where
  orderly := by
    rw [List.flatMap_append, orderly_append]
    exact ⟨h.orderly, h'.orderly⟩
  lends := by
    rw [List.flatMap_append, heldAfter_append]
    exact h'.lends

theorem Lends.keep (h : Lends s₀ held st) (hsteady : Steady st.sched st'.sched)
    (hnext : st'.sched.nextRef = st.sched.nextRef) (htokens : st'.numScheduledTokens = st.numScheduledTokens)
    (hrun : st'.scheduledRunningReqs = st.scheduledRunningReqs) : Lends s₀ held st' where
  steady := h.steady.trans hsteady
  nextRef := hnext.trans h.nextRef
  scheduled := htokens ▸ h.scheduled
  registered := hrun ▸ h.registered

theorem Lends.same (h : Lends s₀ held st) (hobjs : st'.sched.objs = st.sched.objs)
    (hreq : st'.sched.requests = st.sched.requests) (hnext : st'.sched.nextRef = st.sched.nextRef)
    (htokens : st'.numScheduledTokens = st.numScheduledTokens)
    (hrun : st'.scheduledRunningReqs = st.scheduledRunningReqs) : Lends s₀ held st' :=
  h.keep ⟨hreq, fun r => by rw [hobjs], fun r => by rw [hobjs]⟩ hnext htokens hrun

theorem takeVictim_tokens {i j : Nat} (h : st.takeVictim c i = .ok (v, j, st₁)) :
    ((c.policy = .priority ∧ v ∈ st.scheduledRunningReqs) ∧
        (st.sched.objs v).requestId ∈ st.numScheduledTokens.keys ∧
        st₁.numScheduledTokens = st.numScheduledTokens.erase (st.sched.objs v).requestId) ∨
      (¬ (c.policy = .priority ∧ v ∈ st.scheduledRunningReqs) ∧
        st₁.numScheduledTokens = st.numScheduledTokens) := by
  unfold takeVictim at h
  split at h
  · rename_i hpolicy
    split at h
    · cases h
    · rename_i w hw
      dsimp only at h
      split at h
      · rename_i hmem
        simp only [Result.bind_eq_ok, Result.pure_eq_ok, Prod.mk.injEq] at h
        obtain ⟨st₂, hun, rfl, -, rfl⟩ := h
        obtain ⟨n, hn, rfl⟩ := unschedule_eq_ok hun
        exact .inl ⟨⟨hpolicy, hmem⟩, Dict.mem_keys.mpr ⟨n, hn⟩, rfl⟩
      · rename_i hmem
        cases h
        exact .inr ⟨fun hand => hmem hand.2, rfl⟩
  · rename_i hpolicy
    split at h
    · cases h
    · cases h
      refine .inr ⟨fun hand => ?_, rfl⟩
      rw [hpolicy] at hand
      cases hand.1

theorem Lends.preempt (h : Lends s₀ held st) {i j : Nat} (hv : st.takeVictim c i = .ok (v, j, st₁))
    (hp : st₁.preempt c v = .ok st')
    (hfirst : (EncoderTurn.preempted v (st₁.sched.objs v)
      (c.policy = .priority ∧ v ∈ st.scheduledRunningReqs)).inFirstStep s₀.requests = true) :
    Orders s₀ held [.preempted v (st₁.sched.objs v) (c.policy = .priority ∧ v ∈ st.scheduledRunningReqs)] st' := by
  have htakes := takeVictim_takes hv
  obtain ⟨running, hsched, -⟩ := htakes.sched
  obtain ⟨s, hs, rfl⟩ := preempt_eq_ok hp
  obtain ⟨-, rfl⟩ := preemptRequest_eq_ok hs
  have hobjs : st₁.sched.objs = st.sched.objs := by rw [hsched]
  have hfeatures : (st₁.sched.objs v).mmFeatures = (s₀.objs v).mmFeatures := by
    rw [hobjs]
    exact h.steady.features v
  have hid : (st.sched.objs v).requestId = (s₀.objs v).requestId := h.steady.requestId v
  have hsteady : Steady st.sched { st₁.sched with
      kvCacheManager := st₁.sched.kvCacheManager.free (st₁.sched.objs v).requestId
      encoderCacheManager := st₁.sched.encoderCacheManager.free (st₁.sched.objs v)
      objs := Function.update st₁.sched.objs v (markPreempted (st₁.sched.objs v))
      waiting := RequestQueue.prependRequest c.policy (st₁.sched.modify v markPreempted).lt
        st₁.sched.waiting v } := by
    rw [hsched]
    exact steady_update rfl rfl rfl rfl
  have hcase : HoldsAll held v (s₀.objs v) ∧ ∀ id ∈ st₁.numScheduledTokens.keys, id ∈ st.numScheduledTokens.keys ∧
      ∀ r, (s₀.objs r).requestId = id → r ≠ v ∨ (st₁.sched.objs v).hasEncoderEmbeds = false := by
    rcases takeVictim_tokens hv with ⟨⟨-, hmem⟩, hkey, htokens⟩ | ⟨hnot, htokens⟩
    · rw [hid] at hkey htokens
      refine ⟨(h.scheduled _ hkey v (h.registered v hmem)).2, fun id hkeys => ?_⟩
      rw [htokens, Dict.mem_keys_erase] at hkeys
      refine ⟨hkeys.2, fun r hr => .inl ?_⟩
      rintro rfl
      exact hkeys.1 hr.symm
    · rw [EncoderTurn.inFirstStep, decide_eq_false hnot, Bool.false_or, Bool.not_eq_true'] at hfirst
      rw [htokens]
      refine ⟨.of_none ((Request.hasEncoderEmbeds_congr hfeatures).symm.trans hfirst), fun id hkeys => ?_⟩
      exact ⟨hkeys, fun r _ => .inr hfirst⟩
  obtain ⟨hholds, hothers⟩ := hcase
  constructor
  · rw [List.flatMap_singleton]
    exact (hholds.congr hfeatures).orderly_free List.nodup_range
  · rw [List.flatMap_singleton]
    refine ⟨h.steady.trans hsteady, ?_, fun id hkeys r hr => ?_, fun r hr => h.registered r (htakes.scheduled r hr)⟩
    · rw [← h.nextRef, hsched]
    · obtain ⟨hkey, hother⟩ := hothers id hkeys
      obtain ⟨hrid, hall⟩ := h.scheduled id hkey r hr
      exact ⟨hrid, hall.free (hother r hrid) _⟩

theorem Lends.schedule (h : Lends s₀ held st) (hsteady : Steady st.sched st'.sched)
    (hnext : st'.sched.nextRef = st.sched.nextRef)
    (hfirst : (EncoderTurn.scheduled r (st.sched.objs r) plan).inFirstStep s₀.requests = true)
    (htokens : st'.numScheduledTokens = st.numScheduledTokens.set (st.sched.objs r).requestId n)
    (hrun : ∀ x ∈ st'.scheduledRunningReqs, x ∈ st.scheduledRunningReqs ∨ x = r) :
    Orders s₀ held [.scheduled r (st.sched.objs r) plan] st' := by
  have hfeatures : (s₀.objs r).mmFeatures = (st.sched.objs r).mmFeatures := (h.steady.features r).symm
  have hid : (st.sched.objs r).requestId = (s₀.objs r).requestId := h.steady.requestId r
  rw [EncoderTurn.inFirstStep, Bool.and_eq_true, decide_eq_true_eq, hid] at hfirst
  obtain ⟨hregistered, hcovers⟩ := hfirst
  constructor
  · rw [List.flatMap_singleton]
    exact orderly_allocate held r _ _
  · rw [List.flatMap_singleton]
    refine ⟨h.steady.trans hsteady, hnext.trans h.nextRef, fun id hkeys x hx => ?_, fun x hx => ?_⟩
    · rw [htokens, hid, Dict.mem_keys_set] at hkeys
      by_cases heq : id = (s₀.objs r).requestId
      · subst heq
        obtain rfl := Option.some_inj.mp (hregistered.symm.trans hx)
        exact ⟨rfl, (HoldsAll.of_coversAll hcovers).congr hfeatures⟩
      · obtain ⟨hxid, hall⟩ := h.scheduled id (hkeys.resolve_left heq) x hx
        exact ⟨hxid, hall.allocate r _ _⟩
    · rcases hrun x hx with hx | rfl
      · exact h.registered x hx
      · exact hregistered

theorem allocateOrPreempt_orders {fuel j j' : Nat} {blocks : Option (List (List BlockId))} (h : Lends s₀ held st)
    (hfirst : ∀ t ∈ allocateOrPreemptTurns c r n fuel j st, t.inFirstStep s₀.requests = true)
    (hok : allocateOrPreempt c r n fuel j st = .ok (blocks, j', st')) :
    Orders s₀ held (allocateOrPreemptTurns c r n fuel j st) st' := by
  induction fuel generalizing j st held with
  | zero => cases hok
  | succ fuel ih =>
    simp only [allocateOrPreempt, Result.bind_eq_ok, Prod.exists] at hok
    obtain ⟨newBlocks, kv, halloc, hok⟩ := hok
    simp only [allocateOrPreemptTurns, halloc, Result.collect_ok] at hfirst ⊢
    have hkv : Lends s₀ held (st.withKv kv) := h.same rfl rfl rfl rfl rfl
    cases newBlocks with
    | some blocks =>
      cases hok
      exact hkv.nil
    | none =>
      simp only [Result.bind_eq_ok, Prod.exists] at hok
      obtain ⟨v, j₁, st₁, hv, st₂, hp, hok⟩ := hok
      simp only [hv, hp, Result.collect_ok, Option.isSome_none, Bool.false_eq_true, if_false,
        List.forall_mem_cons] at hfirst ⊢
      have hone := hkv.preempt hv hp hfirst.1
      split at hok
      · rename_i heq
        cases hok
        rw [if_pos heq]
        exact hone
      · rename_i hne
        rw [if_neg hne] at hfirst ⊢
        exact hone.append (ih hone.lends hfirst.2 hok)

theorem visitRunning_orders {j j' : Nat} {goOn : Bool} (h : Lends s₀ held st)
    (hfirst : ∀ t ∈ st.visitRunningTurns c env j r, t.inFirstStep s₀.requests = true)
    (hok : st.visitRunning c env j r = .ok (goOn, j', st')) :
    Orders s₀ held (st.visitRunningTurns c env j r) st' := by
  unfold visitRunning at hok
  unfold visitRunningTurns at hfirst ⊢
  dsimp only at hok hfirst ⊢
  split at hok
  · rename_i hmax
    cases hok
    rw [if_pos hmax]
    exact h.nil
  · rename_i hmax
    simp only [Result.bind_eq_ok] at hok
    obtain ⟨plan, hplan, n, hn, hok⟩ := hok
    rw [if_neg hmax, hplan, Result.collect_ok, hn, Result.collect_ok] at hfirst ⊢
    have hplanned : Lends s₀ held (st.withEncoder plan.encoder) := h.same rfl rfl rfl rfl rfl
    split at hok
    · rename_i hzero
      cases hok
      rw [if_pos hzero]
      exact hplanned.nil
    · rename_i hzero
      simp only [Result.bind_eq_ok, Prod.exists] at hok
      obtain ⟨newBlocks, j₁, st₁, halloc, hok⟩ := hok
      rw [if_neg hzero, halloc, Result.collect_ok, List.forall_mem_append] at hfirst
      rw [if_neg hzero, halloc, Result.collect_ok]
      have hroom := allocateOrPreempt_orders hplanned hfirst.1 halloc
      cases newBlocks with
      | none =>
        cases hok
        exact hroom.append hroom.lends.nil
      | some blocks =>
        simp only [Result.bind_eq_ok, Result.pure_eq_ok, Prod.mk.injEq] at hok
        obtain ⟨st₂, hrun, -, -, rfl⟩ := hok
        obtain ⟨e, inputs, budget, rfl⟩ := scheduleEncoder_frame hrun
        refine hroom.append (hroom.lends.schedule (n := n) ?_ rfl ?_ rfl fun x hx => ?_)
        · exact steady_update rfl rfl rfl rfl
        · exact hfirst.2 _ (List.mem_singleton_self _)
        · exact (List.mem_append.mp hx).imp_right List.mem_singleton.mp

theorem scheduleRunning_orders {fuel j : Nat} (h : Lends s₀ held st)
    (hfirst : ∀ t ∈ st.scheduleRunningTurns c env fuel j, t.inFirstStep s₀.requests = true)
    (hok : st.scheduleRunning c env fuel j = .ok st') :
    Orders s₀ held (st.scheduleRunningTurns c env fuel j) st' := by
  induction fuel generalizing j st held with
  | zero =>
    cases hok
    exact h.nil
  | succ fuel ih =>
    unfold scheduleRunning at hok
    unfold scheduleRunningTurns at hfirst ⊢
    split at hok
    · rename_i hbudget
      rw [if_pos hbudget] at hfirst ⊢
      cases hr : st.sched.running[j]? with
      | none =>
        rw [hr] at hok
        cases hok
        exact h.nil
      | some r =>
        simp only [hr, Result.bind_eq_ok, Prod.exists] at hok
        obtain ⟨goOn, j₁, st₁, hvisit, hok⟩ := hok
        rw [hr] at hfirst
        dsimp only at hfirst ⊢
        rw [hvisit, Result.collect_ok, List.forall_mem_append] at hfirst
        rw [hvisit, Result.collect_ok]
        have hone := visitRunning_orders h hfirst.1 hvisit
        refine hone.append ?_
        split at hok
        · rename_i hgo
          rw [if_pos hgo] at hfirst ⊢
          exact ih hone.lends hfirst.2 hok
        · rename_i hgo
          cases hok
          rw [if_neg hgo]
          exact hone.lends.nil
    · rename_i hbudget
      cases hok
      rw [if_neg hbudget]
      exact h.nil

theorem Lends.refuse (h : Lends s₀ held st) (hobjs : st'.sched.objs = st.sched.objs)
    (hreq : st'.sched.requests = st.sched.requests) (hnext : st'.sched.nextRef = st.sched.nextRef)
    (htokens : st'.numScheduledTokens = st.numScheduledTokens)
    (hrun : st'.scheduledRunningReqs = st.scheduledRunningReqs)
    (hfirst : (EncoderTurn.refused r q).inFirstStep s₀.requests = true) : Orders s₀ held [.refused r q] st' := by
  rw [EncoderTurn.inFirstStep, Bool.not_eq_true'] at hfirst
  have hkept := h.same hobjs hreq hnext htokens hrun
  constructor
  · rw [List.flatMap_singleton, EncoderTurn.calls]
    split
    · exact (HoldsAll.of_none hfirst).orderly_free List.nodup_range
    · trivial
  · rw [List.flatMap_singleton, EncoderTurn.calls]
    split
    · refine ⟨hkept.steady, hkept.nextRef, fun id hid x hx => ?_, hkept.registered⟩
      obtain ⟨hxid, hall⟩ := hkept.scheduled id hid x hx
      exact ⟨hxid, hall.free (.inr hfirst) _⟩
    · exact hkept

theorem skipSelected_lends {skipped : Bool} (h : Lends s₀ held st) (hok : st.skipSelected c skipped = .ok st') :
    Lends s₀ held st' := by
  simp only [skipSelected, Result.bind_eq_ok, Prod.exists, Result.pure_eq_ok] at hok
  obtain ⟨r, s, hpop, rfl⟩ := hok
  obtain ⟨-, -, waiting, skippedWaiting, rfl⟩ := popSelected_eq_ok hpop
  exact h.same rfl rfl rfl rfl rfl

theorem placeWaiting_orders {skipped goOn : Bool} {pre : ComputedPrefix} (h : Lends s₀ held st)
    (hsel : selected st.sched skipped = some r)
    (hfirst : ∀ t ∈ st.placeWaitingTurns c r n pre plan, t.inFirstStep s₀.requests = true)
    (hok : st.placeWaiting c skipped r n pre plan = .ok (goOn, st')) :
    Orders s₀ held (st.placeWaitingTurns c r n pre plan) st' := by
  simp only [placeWaiting, Result.bind_eq_ok, Prod.exists] at hok
  obtain ⟨newBlocks, kv, halloc, hok⟩ := hok
  unfold placeWaitingTurns at hfirst ⊢
  dsimp only at hfirst ⊢
  rw [halloc, Result.collect_ok] at hfirst ⊢
  cases newBlocks with
  | none =>
    cases hok
    simp only [Option.isSome_none, Bool.false_eq_true, if_false] at hfirst ⊢
    have hrefused := hfirst _ (List.mem_singleton_self _)
    split
    · exact h.refuse rfl rfl rfl rfl rfl hrefused
    · exact h.refuse rfl rfl rfl rfl rfl hrefused
  | some blocks =>
    simp only [Option.isSome_some, if_true] at hfirst ⊢
    dsimp only at hok
    split at hok
    · rename_i hload
      rw [if_pos hload]
      simp only [Result.bind_eq_ok, Result.pure_eq_ok, Prod.mk.injEq] at hok
      obtain ⟨st₁, hst, -, rfl⟩ := hok
      simp only [startLoad, Result.bind_eq_ok, Prod.exists, Result.pure_eq_ok] at hst
      obtain ⟨x, s, hpop, rfl⟩ := hst
      obtain ⟨-, -, waiting, skippedWaiting, rfl⟩ := popSelected_eq_ok hpop
      refine Lends.nil (h.keep ?_ rfl rfl rfl)
      dsimp only
      refine .trans ?_ (steady_modify _ rfl rfl)
      exact steady_update rfl rfl rfl rfl
    · rename_i hload
      rw [if_neg hload] at hfirst ⊢
      simp only [Result.bind_eq_ok, Result.pure_eq_ok, Prod.mk.injEq] at hok
      obtain ⟨st₁, hst, -, rfl⟩ := hok
      obtain ⟨r', s, new, resumed, loras, hpop, -, hst⟩ := admitRequest_eq_ok hst
      obtain ⟨hsel', -, waiting, skippedWaiting, rfl⟩ := popSelected_eq_ok hpop
      have hsame : selected st.sched skipped = some r' := hsel'
      obtain rfl : r = r' := Option.some_inj.mp (hsel.symm.trans hsame)
      obtain ⟨e, inputs, budget, rfl⟩ := scheduleEncoder_frame hst
      refine h.schedule (n := n) ?_ rfl (hfirst _ (List.mem_singleton_self _)) rfl fun x hx => .inl hx
      exact steady_update rfl rfl rfl rfl

theorem tryWaiting_orders {skipped goOn : Bool} (h : Lends s₀ held st) (hsel : selected st.sched skipped = some r)
    (hfirst : ∀ t ∈ st.tryWaitingTurns c env r, t.inFirstStep s₀.requests = true)
    (hok : st.tryWaiting c env skipped r = .ok (goOn, st')) :
    Orders s₀ held (st.tryWaitingTurns c env r) st' := by
  simp only [tryWaiting, Result.bind_eq_ok, Prod.exists] at hok
  obtain ⟨pre, s, hpre, hok⟩ := hok
  unfold tryWaitingTurns at hfirst ⊢
  rw [hpre, Result.collect_ok] at hfirst ⊢
  have hcomputed : Lends s₀ held { st with sched := s } ∧ selected s skipped = some r := by
    rcases computedPrefix_frame hpre with rfl | ⟨-, ext, rfl⟩
    · exact ⟨h, hsel⟩
    · exact ⟨h.keep (steady_update rfl rfl rfl rfl) rfl rfl rfl, hsel⟩
  obtain ⟨h, hsel⟩ := hcomputed
  cases pre with
  | none =>
    simp only [Result.bind_eq_ok, Result.pure_eq_ok, Prod.mk.injEq] at hok
    obtain ⟨st₁, hst, -, rfl⟩ := hok
    exact (skipSelected_lends h hst).nil
  | some pre =>
    simp only [Result.bind_eq_ok] at hok
    obtain ⟨plan, hplan, hok⟩ := hok
    dsimp only at hfirst ⊢
    rw [hplan, Result.collect_ok] at hfirst ⊢
    cases plan with
    | none =>
      cases hok
      exact h.nil
    | some plan =>
      have hplanned : Lends s₀ held (({ st with sched := s } : Step).withEncoder plan.encoder) :=
        h.same rfl rfl rfl rfl rfl
      dsimp only at hok hfirst ⊢
      split at hok
      · rename_i hzero
        cases hok
        rw [if_pos hzero]
        exact hplanned.nil
      · rename_i hzero
        simp only [Result.bind_eq_ok] at hok
        obtain ⟨n, hn, hok⟩ := hok
        have hn' : alignedNewTokens c (s.objs r) plan.numNewTokens pre.numNewLocalComputedTokens
            pre.numExternalComputedTokens = .ok n := hn
        rw [if_neg hzero, hn', Result.collect_ok] at hfirst ⊢
        split at hok
        · rename_i hzero
          cases hok
          rw [if_pos hzero]
          exact hplanned.nil
        · rename_i hzero
          rw [if_neg hzero] at hfirst ⊢
          exact placeWaiting_orders hplanned hsel hfirst hok

theorem visitWaiting_orders {goOn : Bool} (h : Lends s₀ held st)
    (hfirst : ∀ t ∈ st.visitWaitingTurns c env, t.inFirstStep s₀.requests = true)
    (hok : st.visitWaiting c env = .ok (goOn, st')) : Orders s₀ held (st.visitWaitingTurns c env) st' := by
  unfold visitWaiting at hok
  dsimp only at hok
  unfold visitWaitingTurns at hfirst ⊢
  split at hok
  · cases hok
  · rename_i r hr
    have hsel : selected st.sched (selectsSkipped c st.sched) = some r := hr
    simp only [Result.bind_eq_ok, Prod.exists] at hok
    obtain ⟨ready, s, hpromote, hok⟩ := hok
    rw [hsel] at hfirst ⊢
    dsimp only at hfirst ⊢
    rw [hpromote, Result.collect_ok] at hfirst ⊢
    have hready : Lends s₀ held { st with sched := s } ∧ selected s (selectsSkipped c st.sched) = some r := by
      split at hpromote
      · rcases tryPromote_cases hpromote with ⟨-, rfl⟩ | ⟨-, -, rfl⟩ | ⟨-, -, _, _, _, _, _, rfl⟩
        · exact ⟨h, hsel⟩
        · exact ⟨h.keep (steady_update rfl rfl rfl rfl) rfl rfl rfl, hsel⟩
        · exact ⟨h.keep (steady_update rfl rfl rfl rfl) rfl rfl rfl, hsel⟩
      · cases hpromote
        exact ⟨h, hsel⟩
    obtain ⟨h, hsel⟩ := hready
    dsimp only at hfirst ⊢
    split at hok
    · rename_i hskip
      rw [if_pos hskip]
      simp only [Result.bind_eq_ok, Result.pure_eq_ok, Prod.mk.injEq] at hok
      obtain ⟨st₁, hst, -, rfl⟩ := hok
      exact (skipSelected_lends h hst).nil
    · rename_i hskip
      rw [if_neg hskip] at hfirst ⊢
      exact tryWaiting_orders h hsel hfirst hok

theorem scheduleWaiting_orders {fuel : Nat} (h : Lends s₀ held st)
    (hfirst : ∀ t ∈ st.scheduleWaitingTurns c env fuel, t.inFirstStep s₀.requests = true)
    (hok : st.scheduleWaiting c env fuel = .ok st') : Orders s₀ held (st.scheduleWaitingTurns c env fuel) st' := by
  induction fuel generalizing st held with
  | zero =>
    cases hok
    exact h.nil
  | succ fuel ih =>
    unfold scheduleWaiting at hok
    unfold scheduleWaitingTurns at hfirst ⊢
    split at hok
    · rename_i hroom
      simp only [Result.bind_eq_ok, Prod.exists] at hok
      obtain ⟨goOn, st₁, hvisit, hok⟩ := hok
      rw [if_pos hroom, hvisit, Result.collect_ok, List.forall_mem_append] at hfirst
      rw [if_pos hroom, hvisit, Result.collect_ok]
      have hone := visitWaiting_orders h hfirst.1 hvisit
      refine hone.append ?_
      dsimp only at hfirst ⊢
      split at hok
      · rename_i hgo
        rw [if_pos hgo] at hfirst ⊢
        exact ih hone.lends hfirst.2 hok
      · rename_i hgo
        cases hok
        rw [if_neg hgo]
        exact hone.lends.nil
    · rename_i hroom
      cases hok
      rw [if_neg hroom]
      exact h.nil

theorem scheduleRequests_orders {s : Scheduler} (held : List EncoderInput)
    (hfirst : ∀ t ∈ scheduleRequestsTurns c env s, t.inFirstStep s.requests = true)
    (hok : scheduleRequests c env s = .ok st) : Orders s held (scheduleRequestsTurns c env s) st := by
  simp only [scheduleRequests, Result.bind_eq_ok] at hok
  obtain ⟨st₁, hrunning, st₂, hloras, hok⟩ := hok
  have hrun : (start c s).scheduleRunning c env (s.running.length + 1) 0 = .ok st₁ := hrunning
  have hstart : Lends s held (start c s) :=
    ⟨⟨rfl, fun _ => rfl, fun _ => rfl⟩, rfl, fun id hid => absurd hid List.not_mem_nil,
      fun r hr => absurd hr List.not_mem_nil⟩
  unfold scheduleRequestsTurns at hfirst ⊢
  rw [hrun, Result.collect_ok, hloras, Result.collect_ok, List.forall_mem_append] at hfirst
  rw [hrun, Result.collect_ok, hloras, Result.collect_ok]
  have hone := scheduleRunning_orders hstart hfirst.1 hrun
  refine hone.append ?_
  obtain ⟨loras, rfl⟩ := recordLoras_frame hloras
  have hrecorded : Lends s (heldAfter held (((start c s).scheduleRunningTurns c env (s.running.length + 1) 0).flatMap
      EncoderTurn.calls)) { st₁ with scheduledLoras := loras } := hone.lends.same rfl rfl rfl rfl rfl
  split at hok
  · rename_i hunpaused
    rw [if_pos hunpaused] at hfirst ⊢
    simp only [Result.bind_eq_ok, Result.pure_eq_ok] at hok
    obtain ⟨st₃, hwaiting, rfl⟩ := hok
    have hloop := scheduleWaiting_orders hrecorded hfirst.2 hwaiting
    exact ⟨hloop.orderly, hloop.lends.same rfl rfl rfl rfl rfl⟩
  · rename_i hpaused
    cases hok
    rw [if_neg hpaused]
    exact hrecorded.nil

end Step

namespace Scheduler

variable {c : SchedulerConfig} {env : Outside} {s s' : Scheduler} {o : SchedulerOutput}

theorem advanceRequests_orderly {items : List (ReqId × Int)} (hnodup : (items.map Prod.fst).Nodup)
    (h : ∀ id ∈ items.map Prod.fst, ∀ r, s.requests.get? id = some r →
      (s.objs r).requestId = id ∧ HoldsAll held r (s.objs r)) :
    Orderly held (advanceRequestsCalls c items s) := by
  induction items generalizing s held with
  | nil => trivial
  | cons item items ih =>
    obtain ⟨reqId, n⟩ := item
    rw [List.map_cons] at hnodup h
    obtain ⟨hids, hnodup⟩ := List.nodup_cons.mp hnodup
    unfold advanceRequestsCalls
    cases hr : s.requests.get? reqId with
    | none => trivial
    | some r =>
      obtain ⟨hid, hall⟩ := h reqId List.mem_cons_self r hr
      have hsteady : Step.Steady s (s.advanceRequest c r n) := by
        unfold advanceRequest
        dsimp only
        split
        · exact Step.steady_update rfl rfl rfl rfl
        · exact Step.steady_update rfl rfl rfl rfl
      have hrest : ∀ {held'}, (∀ x p, x ≠ r → HoldsAll held x p → HoldsAll held' x p) →
          Orderly held' (advanceRequestsCalls c items (s.advanceRequest c r n)) := by
        intro held' hkept
        refine ih hnodup fun id hmem x hx => ?_
        rw [hsteady.requests] at hx
        obtain ⟨hxid, hxall⟩ := h id (List.mem_cons_of_mem reqId hmem) x hx
        have hne : x ≠ r := by
          rintro rfl
          exact hids (hid ▸ hxid ▸ hmem)
        exact ⟨(hsteady.requestId x).trans hxid, (hkept x _ hne hxall).congr (hsteady.features x)⟩
      dsimp only
      split
      · rw [orderly_append]
        refine ⟨?_, hrest fun x p hne hx => hx.free (.inl hne) _⟩
        have hsame : HoldsAll held r (advance n (s.objs r)) := hall.congr rfl
        exact hsame.orderly_free (List.nodup_range.filter _)
      · exact hrest fun x p _ hx => hx

/-- A call of `schedule()` in which the requests with embeddings are in their first step frees what is held. -/
theorem schedule_orderly (held : List EncoderInput)
    (hfirst : ∀ t ∈ Step.scheduleRequestsTurns c env s, t.inFirstStep s.requests = true)
    (hok : schedule c env s = .ok (o, s')) :
    Orderly held (scheduleCalls c env s) ∧ Recalls s s' := by
  simp only [schedule, Result.bind_eq_ok, Prod.exists] at hok
  obtain ⟨st, hst, o₁, s₁, hout, hok⟩ := hok
  have horders := Step.scheduleRequests_orders held hfirst hst
  obtain ⟨⟨kv, hs₁⟩, htokens, -⟩ := Step.makeOutput_eq_ok hout
  have hmade : Step.Steady st.sched s₁ := by
    rw [hs₁]
    exact ⟨rfl, fun _ => rfl, fun _ => rfl⟩
  have hsteady := horders.lends.steady.trans hmade
  constructor
  · unfold scheduleCalls
    rw [hst, Result.collect_ok, hout, Result.collect_ok, orderly_append]
    refine ⟨horders.orderly, advanceRequests_orderly o₁.numScheduledTokens.nodup fun id hid r hr => ?_⟩
    rw [htokens] at hid
    obtain ⟨hrid, hall⟩ := horders.lends.scheduled id hid r (hsteady.requests ▸ hr)
    exact ⟨(hsteady.requestId r).trans hrid, hall.congr (hsteady.features r)⟩
  · have hnext : s₁.nextRef = s.nextRef := by
      rw [hs₁]
      exact horders.lends.nextRef
    have hadvanced := updateAfterSchedule_advances hok
    exact .of_steady (hsteady.trans hadvanced.steady) (hadvanced.nextRef.trans hnext)

end Scheduler

end Vllm
