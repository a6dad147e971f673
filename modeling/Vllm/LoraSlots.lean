import Mathlib.Data.Finset.Card
import Vllm.RunningFrame
import Vllm.Engine

namespace Vllm

namespace Scheduler

def adapter (s : Scheduler) (r : Ref) : Option Nat :=
  ((s.objs r).loraRequest.map LoRARequest.loraIntId).filter (0 < ·)

def adapters (s : Scheduler) (l : List Ref) : Finset Nat := (l.filterMap s.adapter).toFinset

end Scheduler

namespace Step

open Scheduler

variable (c : SchedulerConfig) (env : Outside)

def passesOver (st : Step) (r : Ref) : Bool :=
  let request := st.sched.objs r
  reachesMaxTokens request ||
    Result.holds (tryScheduleEncoderInputs c env st.sched request request.numComputedTokens
      (runningNewTokens c st request) st.encoderComputeBudget) fun plan =>
      Result.holds (alignedNewTokens c request plan.numNewTokens 0 0) (· = 0)

def passesOverNoAdapter : Nat → Nat → Step → Bool
  | 0, _, _ => true
  | fuel + 1, reqIndex, st =>
    if st.tokenBudget > 0 then
      match st.sched.running[reqIndex]? with
      | none => true
      | some r => (!st.passesOver c env r || (st.sched.adapter r).isNone) &&
        match st.visitRunning c env reqIndex r with
        | .ok (true, reqIndex, st) => passesOverNoAdapter fuel reqIndex st
        | _ => true
    else true

end Step

/-- The step is not a call of `schedule()` that goes past a running request with an adapter. -/
def EngineOp.keepsAdapters (c : SchedulerConfig) (e : Engine) : EngineOp → Bool
  | .schedule env => (Step.start c e.sched).passesOverNoAdapter c env (e.sched.running.length + 1) 0
  | _ => true

/-- The running requests need at most `max_loras` adapters, and the assertion of `schedule()` on
them does not fail. -/
structure Scheduler.LorasOk (c : SchedulerConfig) (s : Scheduler) : Prop where
  card_le : ∀ maxLoras, c.maxLoras = some maxLoras → (s.adapters s.running).card ≤ maxLoras
  asserted : ∀ env st, (Step.start c s).scheduleRunning c env (s.running.length + 1) 0 = .ok st →
    ∃ st', st.recordLoras c = .ok st'

namespace Scheduler

variable {s s' : Scheduler} {l l' : List Ref} {r : Ref} {a : Nat}

theorem mem_adapters : a ∈ s.adapters l ↔ ∃ r ∈ l, s.adapter r = some a := by
  rw [adapters, List.mem_toFinset, List.mem_filterMap]

theorem adapter_congr (h : (s'.objs r).loraRequest = (s.objs r).loraRequest) :
    s'.adapter r = s.adapter r := by
  rw [adapter, h, adapter]

theorem adapters_subset (hl : ∀ r ∈ l', r ∈ l) (h : ∀ r ∈ l', s'.adapter r = s.adapter r) :
    s'.adapters l' ⊆ s.adapters l := by
  intro a ha
  obtain ⟨r, hr, hra⟩ := mem_adapters.mp ha
  exact mem_adapters.mpr ⟨r, hl r hr, (h r hr).symm.trans hra⟩

theorem Carries.adapters_subset (h : Carries s s') (hs : s.RefsOk) :
    s'.adapters s'.running ⊆ s.adapters s.running :=
  Scheduler.adapters_subset (fun _ hr => h.running.subset hr) fun r hr =>
    adapter_congr (h.lora r (hs.running r (h.running.subset hr)))

end Scheduler

namespace Step

open Scheduler

variable {c : SchedulerConfig} {env : Outside} {s₀ : Scheduler} {st st' : Step} {r : Ref} {P : Prop}

structure InCall (s₀ : Scheduler) (st : Step) : Prop where
  nextRef : s₀.nextRef ≤ st.sched.nextRef
  lora : ∀ r < s₀.nextRef, (st.sched.objs r).loraRequest = (s₀.objs r).loraRequest
  refs : st.sched.RefsOk
  aside : ∀ r ∈ st.stepSkippedWaiting, r < st.sched.nextRef

theorem InCall.carries (h : InCall s₀ st) (hc : Carries st.sched st'.sched)
    (haside : st'.stepSkippedWaiting = st.stepSkippedWaiting) : InCall s₀ st' where
  nextRef := Nat.le_trans h.nextRef hc.nextRef
  lora := fun r hr => (hc.lora r (Nat.lt_of_lt_of_le hr h.nextRef)).trans (h.lora r hr)
  refs := hc.refs
  aside := by
    rw [haside]
    exact fun r hr => Nat.lt_of_lt_of_le (h.aside r hr) hc.nextRef

section Running

structure Preempts (st st' : Step) : Prop where
  carries : Carries st.sched st'.sched
  scheduled : ∀ r ∈ st'.scheduledRunningReqs, r ∈ st.scheduledRunningReqs
  aside : st'.stepSkippedWaiting = st.stepSkippedWaiting
  preempted : st'.preemptedReqs = [] → st.preemptedReqs = []

theorem Preempts.trans {st₁ : Step} (h : Preempts st st₁) (h' : Preempts st₁ st') :
    Preempts st st' :=
  ⟨h.carries.trans h'.carries, fun r hr => h.scheduled r (h'.scheduled r hr),
    h'.aside.trans h.aside, fun hnil => h.preempted (h'.preempted hnil)⟩

theorem takeVictim_preempts {i j : Nat} {v : Ref} (hs : st.sched.RefsOk)
    (h : st.takeVictim c i = .ok (v, j, st')) : v ∈ st.sched.running ∧ Preempts st st' := by
  have htakes := takeVictim_takes h
  obtain ⟨running, hsched, hsub, -⟩ := htakes.sched
  have hcarries : Carries st.sched st'.sched := by
    rw [hsched]
    exact hs.carries_of rfl (fun _ => .refl _) hsub hs.waiting hs.skippedWaiting fun _ _ => id
  exact ⟨htakes.mem, hcarries, htakes.scheduled, htakes.aside, fun hnil => htakes.preempted.symm.trans hnil⟩

theorem preempt_preempts {v : Ref} (hs : st.sched.RefsOk) (hv : v < st.sched.nextRef)
    (h : st.preempt c v = .ok st') : Preempts st st' ∧ st'.preemptedReqs ≠ [] := by
  obtain ⟨s, hs', rfl⟩ := preempt_eq_ok h
  refine ⟨⟨preemptRequest_carries hs hv hs', fun r hr => hr, rfl, fun hnil => ?_⟩, ?_⟩
  · exact (List.append_eq_nil_iff.mp hnil).1
  · exact fun hnil => List.cons_ne_nil _ _ (List.append_eq_nil_iff.mp hnil).2

theorem allocateOrPreempt_preempts {n : Int} {fuel j j' : Nat}
    {blocks : Option (List (List BlockId))} (hs : st.sched.RefsOk)
    (h : allocateOrPreempt c r n fuel j st = .ok (blocks, j', st')) :
    Preempts st st' ∧ (st'.preemptedReqs = [] → blocks.isSome = true ∧ j' = j ∧
      st'.sched.running = st.sched.running ∧
      st'.scheduledRunningReqs = st.scheduledRunningReqs) := by
  induction fuel generalizing j st with
  | zero => cases h
  | succ fuel ih =>
    simp only [allocateOrPreempt, Result.bind_eq_ok, Prod.exists] at h
    obtain ⟨newBlocks, kv, -, h⟩ := h
    have hkv : Preempts st (st.withKv kv) :=
      ⟨hs.carries_objs fun _ => .refl _, fun r hr => hr, rfl, id⟩
    cases newBlocks with
    | some b =>
      cases h
      exact ⟨hkv, fun _ => ⟨rfl, rfl, rfl, rfl⟩⟩
    | none =>
      simp only [Result.bind_eq_ok, Prod.exists] at h
      obtain ⟨v, j₁, st₁, hvictim, st₂, hpre, h⟩ := h
      obtain ⟨hv, hfirst⟩ := takeVictim_preempts hkv.carries.refs hvictim
      have hlt : v < st₁.sched.nextRef :=
        Nat.lt_of_lt_of_le (hkv.carries.refs.running v hv) hfirst.carries.nextRef
      obtain ⟨hsecond, hne⟩ := preempt_preempts hfirst.carries.refs hlt hpre
      have hboth := hkv.trans (hfirst.trans hsecond)
      split at h
      · cases h
        exact ⟨hboth, fun hnil => absurd hnil hne⟩
      · have hrest := (ih hsecond.carries.refs h).1
        exact ⟨hboth.trans hrest, fun hnil => absurd (hrest.preempted hnil) hne⟩

/-- The rounds of the running loop up to `i`: while nothing was preempted, the visited requests with
an adapter are scheduled, provided that (`P`) the loop passes over none of them. -/
structure Rounds (P : Prop) (s₀ : Scheduler) (i : Nat) (st : Step) : Prop extends InCall s₀ st where
  running : ∀ r ∈ st.sched.running, r ∈ s₀.running
  scheduled : ∀ r ∈ st.scheduledRunningReqs, r ∈ s₀.running
  length : st.preemptedReqs = [] → st.sched.running.length = s₀.running.length
  visited : P → st.preemptedReqs = [] → ∀ r ∈ st.sched.running.take i,
    (s₀.adapter r).isSome → r ∈ st.scheduledRunningReqs

theorem mem_take_succ {l : List Ref} {i : Nat} {x : Ref} (hr : l[i]? = some r)
    (hx : x ∈ l.take (i + 1)) : x ∈ l.take i ∨ x = r := by
  rw [List.take_add_one, hr, Option.toList_some, List.mem_append, List.mem_singleton] at hx
  exact hx

theorem start_rounds {c : SchedulerConfig} (hs : s₀.RefsOk) : Rounds P s₀ 0 (start c s₀) where
  nextRef := Nat.le_refl _
  lora := fun _ _ => rfl
  refs := (hs.carries_objs fun _ => .refl _).refs
  aside := fun _ hr => absurd hr List.not_mem_nil
  running := fun _ hr => hr
  scheduled := fun _ hr => absurd hr List.not_mem_nil
  length := fun _ => rfl
  visited := fun _ _ _ hr => absurd hr List.not_mem_nil

theorem Rounds.pass {i : Nat} (h : Rounds P s₀ i st) (hr : st.sched.running[i]? = some r)
    (hnone : P → (s₀.adapter r).isNone = true) : Rounds P s₀ (i + 1) st where
  toInCall := h.toInCall
  running := h.running
  scheduled := h.scheduled
  length := h.length
  visited := by
    intro hP hnil x hx hsome
    rcases mem_take_succ hr hx with hx | rfl
    · exact h.visited hP hnil x hx hsome
    · rw [Option.isNone_iff_eq_none.mp (hnone hP)] at hsome
      cases hsome

theorem Rounds.withEncoder {i : Nat} (h : Rounds P s₀ i st) (e : EncoderCacheManager) :
    Rounds P s₀ i (st.withEncoder e) where
  toInCall := h.toInCall.carries (h.refs.carries_objs fun _ => .refl _) rfl
  running := h.running
  scheduled := h.scheduled
  length := h.length
  visited := h.visited

theorem Rounds.adapter_eq {i : Nat} (h : Rounds P s₀ i st) (hs : s₀.RefsOk)
    (hr : st.sched.running[i]? = some r) : st.sched.adapter r = s₀.adapter r :=
  adapter_congr (h.lora r (hs.running r (h.running r (List.mem_of_getElem? hr))))

theorem Rounds.run {i j : Nat} {st₁ : Step} {n : Int} {blocks : List (List BlockId)}
    {plan : EncoderPlan} (h : Rounds P s₀ i st) (hr : st.sched.running[i]? = some r)
    (hpre : Preempts st st₁)
    (hsame : st₁.preemptedReqs = [] → j = i ∧ st₁.sched.running = st.sched.running ∧
      st₁.scheduledRunningReqs = st.scheduledRunningReqs)
    (hok : st₁.scheduleRunningRequest r n blocks plan = .ok st') : Rounds P s₀ (j + 1) st' := by
  obtain ⟨e, inputs, budget, rfl⟩ := scheduleEncoder_frame hok
  have hcarries : Carries st₁.sched ((st₁.sched.modify r fun q =>
      { q with specTokenIds := [] }).withEncoder e) :=
    hpre.carries.refs.carries_objs (record_update ⟨rfl, rfl⟩)
  have hmem : r ∈ st.sched.running := List.mem_of_getElem? hr
  refine ⟨(h.toInCall.carries hpre.carries hpre.aside).carries hcarries rfl, fun x hx => ?_,
    fun x hx => ?_, fun hnil => ?_, fun hP hnil x hx hsome => ?_⟩
  · exact h.running x (hpre.carries.running.subset hx)
  · rcases List.mem_append.mp hx with hx | hx
    · exact h.scheduled x (hpre.scheduled x hx)
    · rw [List.mem_singleton.mp hx]
      exact h.running r hmem
  · have hlen := h.length (hpre.preempted hnil)
    rw [← (hsame hnil).2.1] at hlen
    exact hlen
  · obtain ⟨rfl, hrun, hsched⟩ := hsame hnil
    show x ∈ st₁.scheduledRunningReqs ++ [r]
    rw [hsched]
    rcases mem_take_succ hr (hrun ▸ hx) with hx | rfl
    · exact List.mem_append_left _ (h.visited hP (hpre.preempted hnil) x hx hsome)
    · exact List.mem_append_right _ (List.mem_singleton_self x)

theorem Rounds.visit {i j : Nat} {goOn : Bool} (h : Rounds P s₀ i st) (hs : s₀.RefsOk)
    (hr : st.sched.running[i]? = some r)
    (hpass : P → st.passesOver c env r = true → (st.sched.adapter r).isNone = true)
    (hok : st.visitRunning c env i r = .ok (goOn, j, st')) :
    Rounds P s₀ j st' ∧
      (st'.preemptedReqs = [] → goOn = true ∧ j = i + 1 ∧ st.preemptedReqs = []) := by
  rw [h.adapter_eq hs hr] at hpass
  unfold visitRunning at hok
  dsimp only at hok
  split at hok
  · rename_i hmax
    cases hok
    exact ⟨h.pass hr fun hP => hpass hP (by simp [passesOver, hmax]), fun hnil => ⟨rfl, rfl, hnil⟩⟩
  · simp only [Result.bind_eq_ok] at hok
    obtain ⟨plan, hplan, n, hn, hok⟩ := hok
    have hencoder := h.withEncoder plan.encoder
    split at hok
    · rename_i hzero
      cases hok
      refine ⟨hencoder.pass hr fun hP => hpass hP ?_, fun hnil => ⟨rfl, rfl, hnil⟩⟩
      simp [passesOver, hplan, hn, hzero, Result.holds]
    · simp only [Result.bind_eq_ok, Prod.exists] at hok
      obtain ⟨newBlocks, j₁, st₁, halloc, hok⟩ := hok
      obtain ⟨hpre, hsame⟩ := allocateOrPreempt_preempts hencoder.refs halloc
      cases newBlocks with
      | none =>
        have hne : st₁.preemptedReqs ≠ [] := fun hnil => Bool.noConfusion (hsame hnil).1
        cases hok
        refine ⟨⟨hencoder.toInCall.carries hpre.carries hpre.aside, fun x hx => ?_, fun x hx => ?_,
          fun hnil => absurd hnil hne, fun _ hnil => absurd hnil hne⟩, fun hnil => absurd hnil hne⟩
        · exact hencoder.running x (hpre.carries.running.subset hx)
        · exact hencoder.scheduled x (hpre.scheduled x hx)
      | some blocks =>
        simp only [Result.bind_eq_ok, Result.pure_eq_ok, Prod.mk.injEq] at hok
        obtain ⟨st₂, hrun, rfl, rfl, rfl⟩ := hok
        refine ⟨hencoder.run hr hpre (fun hnil => (hsame hnil).2) hrun, fun hnil => ?_⟩
        have hnil₁ : st₁.preemptedReqs = [] := by
          obtain ⟨e, inputs, budget, rfl⟩ := scheduleEncoder_frame hrun
          exact hnil
        rw [(hsame hnil₁).2.1]
        exact ⟨rfl, rfl, hpre.preempted hnil₁⟩

structure Ended (P : Prop) (s₀ : Scheduler) (st : Step) : Prop extends InCall s₀ st where
  running : ∀ r ∈ st.sched.running, r ∈ s₀.running
  scheduled : ∀ r ∈ st.scheduledRunningReqs, r ∈ s₀.running
  visited : P → st.preemptedReqs = [] → st.tokenBudget > 0 → ∀ r ∈ st.sched.running,
    (s₀.adapter r).isSome → r ∈ st.scheduledRunningReqs

theorem Rounds.ended {i : Nat} (h : Rounds P s₀ i st)
    (hall : st.preemptedReqs = [] → st.tokenBudget > 0 → st.sched.running.length ≤ i) :
    Ended P s₀ st where
  toInCall := h.toInCall
  running := h.running
  scheduled := h.scheduled
  visited := by
    intro hP hnil hbudget r hr hsome
    refine h.visited hP hnil r ?_ hsome
    rw [List.take_of_length_le (hall hnil hbudget)]
    exact hr

theorem scheduleRunning_ended {fuel i : Nat} (h : Rounds P s₀ i st) (hs : s₀.RefsOk)
    (hfuel : st.preemptedReqs = [] → s₀.running.length < i + fuel)
    (hpass : P → passesOverNoAdapter c env fuel i st = true)
    (hok : st.scheduleRunning c env fuel i = .ok st') : Ended P s₀ st' := by
  induction fuel generalizing i st with
  | zero =>
    cases hok
    refine h.ended fun hnil _ => ?_
    rw [h.length hnil]
    exact Nat.le_of_lt (hfuel hnil)
  | succ fuel ih =>
    unfold scheduleRunning at hok
    unfold passesOverNoAdapter at hpass
    split at hok
    · rename_i hbudget
      rw [if_pos hbudget] at hpass
      split at hok
      · rename_i hnone
        cases hok
        exact h.ended fun _ _ => List.getElem?_eq_none_iff.mp hnone
      · rename_i r hr
        rw [hr] at hpass
        simp only [Bool.and_eq_true, Bool.or_eq_true, Bool.not_eq_true'] at hpass
        simp only [Result.bind_eq_ok, Prod.exists] at hok
        obtain ⟨goOn, j, st₁, hvisit, hok⟩ := hok
        obtain ⟨hround, hnext⟩ := h.visit hs hr
          (fun hP hp => (hpass hP).1.resolve_left (by rw [hp]; exact Bool.noConfusion)) hvisit
        rw [hvisit] at hpass
        cases goOn with
        | true =>
          refine ih hround (fun hnil => ?_) (fun hP => (hpass hP).2) hok
          have := hfuel (hnext hnil).2.2
          rw [(hnext hnil).2.1]
          omega
        | false =>
          cases hok
          exact hround.ended fun hnil _ => Bool.noConfusion (hnext hnil).1
    · rename_i hbudget
      cases hok
      exact h.ended fun _ hpos => absurd hpos hbudget

theorem Ended.adapters_subset (h : Ended P s₀ st) (hs : s₀.RefsOk) :
    st.sched.adapters st.scheduledRunningReqs ⊆ s₀.adapters s₀.running :=
  Scheduler.adapters_subset h.scheduled fun r hr =>
    adapter_congr (h.lora r (hs.running r (h.scheduled r hr)))

theorem Ended.recordLoras (h : Ended P s₀ st) (hs : s₀.RefsOk)
    (hle : ∀ maxLoras, c.maxLoras = some maxLoras → (s₀.adapters s₀.running).card ≤ maxLoras) :
    ∃ loras, st.recordLoras c = .ok { st with scheduledLoras := loras } ∧
      ∀ maxLoras, c.maxLoras = some maxLoras → loras.length ≤ maxLoras ∧
        ∀ a ∈ st.sched.adapters st.scheduledRunningReqs, a ∈ loras := by
  unfold Step.recordLoras
  cases hmax : c.maxLoras with
  | none => exact ⟨st.scheduledLoras, rfl, nofun⟩
  | some maxLoras =>
    have hlen : (st.scheduledRunningReqs.filterMap st.sched.adapter).dedup.length ≤ maxLoras := by
      rw [← List.card_toFinset]
      exact (Finset.card_le_card (h.adapters_subset hs)).trans (hle maxLoras hmax)
    refine ⟨(st.scheduledRunningReqs.filterMap st.sched.adapter).dedup, ?_, ?_⟩
    · show (Result.ensure ((st.scheduledRunningReqs.filterMap st.sched.adapter).dedup.length ≤
        maxLoras) _ >>= fun _ => _) = _
      rw [Result.ensure, if_pos hlen]
      rfl
    · intro n hn
      cases hn
      refine ⟨hlen, fun a ha => ?_⟩
      rw [List.mem_dedup, ← List.mem_toFinset]
      exact ha

end Running

section Waiting

structure Slots (c : SchedulerConfig) (s₀ : Scheduler) (st : Step) : Prop extends InCall s₀ st where
  length_le : ∀ maxLoras, c.maxLoras = some maxLoras → st.scheduledLoras.length ≤ maxLoras
  covered : ∀ maxLoras, c.maxLoras = some maxLoras →
    ∀ a ∈ st.sched.adapters st.sched.running, a ∈ st.scheduledLoras

theorem Slots.card_le (h : Slots c s₀ st) {maxLoras : Nat} (hmax : c.maxLoras = some maxLoras) :
    (st.sched.adapters st.sched.running).card ≤ maxLoras :=
  calc (st.sched.adapters st.sched.running).card
    _ ≤ st.scheduledLoras.toFinset.card := Finset.card_le_card fun a ha =>
        List.mem_toFinset.mpr (h.covered maxLoras hmax a ha)
    _ ≤ st.scheduledLoras.length := List.toFinset_card_le _
    _ ≤ maxLoras := h.length_le maxLoras hmax

theorem Slots.of_lora (h : Slots c s₀ st) (hnext : st.sched.nextRef ≤ st'.sched.nextRef)
    (hlora : ∀ r < st.sched.nextRef, (st'.sched.objs r).loraRequest = (st.sched.objs r).loraRequest)
    (hrun : st'.sched.running.Sublist st.sched.running) (hrefs : st'.sched.RefsOk)
    (haside : ∀ r ∈ st'.stepSkippedWaiting, r < st'.sched.nextRef)
    (hloras : st'.scheduledLoras = st.scheduledLoras) : Slots c s₀ st' where
  nextRef := Nat.le_trans h.nextRef hnext
  lora := fun r hr => (hlora r (Nat.lt_of_lt_of_le hr h.nextRef)).trans (h.lora r hr)
  refs := hrefs
  aside := haside
  length_le := by
    rw [hloras]
    exact h.length_le
  covered := by
    rw [hloras]
    exact fun maxLoras hmax a ha => h.covered maxLoras hmax a
      (adapters_subset (fun r hr => hrun.subset hr)
        (fun r hr => adapter_congr (hlora r (h.refs.running r (hrun.subset hr)))) ha)

theorem Slots.carries (h : Slots c s₀ st) (hc : Carries st.sched st'.sched)
    (haside : ∀ r ∈ st'.stepSkippedWaiting, r < st'.sched.nextRef)
    (hloras : st'.scheduledLoras = st.scheduledLoras) : Slots c s₀ st' :=
  h.of_lora hc.nextRef hc.lora hc.running hc.refs haside hloras

theorem popSelected_carries {s s' : Scheduler} {skipped : Bool} (hs : s.RefsOk)
    (h : popSelected c s skipped = .ok (r, s')) : r < s.nextRef ∧ Carries s s' := by
  obtain ⟨hsel, hqueued, waiting, skippedWaiting, rfl⟩ := popSelected_eq_ok h
  have hmem : ∀ x ∈ waiting ++ skippedWaiting, x < s.nextRef := by
    intro x hx
    have hx' : x ∈ s.queued := by
      rw [hqueued]
      refine Multiset.mem_cons_of_mem ?_
      rcases List.mem_append.mp hx with hx | hx
      · exact Multiset.mem_add.mpr (.inl hx)
      · exact Multiset.mem_add.mpr (.inr hx)
    rcases Multiset.mem_add.mp hx' with hx | hx
    · exact hs.waiting x hx
    · exact hs.skippedWaiting x hx
  refine ⟨?_, hs.carries_of rfl (fun _ => .refl _) (List.Sublist.refl _)
    (fun x hx => hmem x (List.mem_append_left _ hx))
    (fun x hx => hmem x (List.mem_append_right _ hx)) fun _ _ => id⟩
  have hr : r ∈ s.queued := by
    rw [hqueued]
    exact Multiset.mem_cons_self r _
  rcases Multiset.mem_add.mp hr with hr | hr
  · exact hs.waiting r hr
  · exact hs.skippedWaiting r hr

theorem aside_prepend {policy : SchedulingPolicy} {lt : Ref → Ref → Bool} {q : List Ref} {n : Nat}
    (hq : ∀ x ∈ q, x < n) (hr : r < n) : ∀ x ∈ RequestQueue.prependRequest policy lt q r, x < n := by
  intro x hx
  rcases List.mem_cons.mp ((RequestQueue.prependRequest_perm q r).mem_iff.mp hx) with rfl | hx
  · exact hr
  · exact hq x hx

theorem Slots.skipSelected {skipped : Bool} (h : Slots c s₀ st)
    (hok : st.skipSelected c skipped = .ok st') : Slots c s₀ st' := by
  simp only [Step.skipSelected, Result.bind_eq_ok, Prod.exists, Result.pure_eq_ok] at hok
  obtain ⟨r, s, hpop, rfl⟩ := hok
  obtain ⟨hr, hc⟩ := popSelected_carries h.refs hpop
  refine h.carries hc (aside_prepend (fun x hx => ?_) ?_) rfl
  · exact Nat.lt_of_lt_of_le (h.aside x hx) hc.nextRef
  · exact Nat.lt_of_lt_of_le hr hc.nextRef

theorem Slots.startLoad {skipped : Bool} {pre : ComputedPrefix} (h : Slots c s₀ st)
    (hok : st.startLoad c skipped pre = .ok st') : Slots c s₀ st' := by
  simp only [Step.startLoad, Result.bind_eq_ok, Prod.exists, Result.pure_eq_ok] at hok
  obtain ⟨r, s, hpop, rfl⟩ := hok
  obtain ⟨hr, hc⟩ := popSelected_carries h.refs hpop
  have hstatus : Carries s (s.modify r fun q => { q with status := .waitingForRemoteKvs }) :=
    hc.refs.carries_objs (record_update ⟨rfl, rfl⟩)
  have hcomputed : Carries (s.modify r fun q => { q with status := .waitingForRemoteKvs })
      ((s.modify r fun q => { q with status := .waitingForRemoteKvs }).modify r fun q =>
        { q with numComputedTokens := pre.numComputedTokens }) :=
    hstatus.refs.carries_objs (record_update ⟨rfl, rfl⟩)
  refine h.carries (hc.trans (hstatus.trans hcomputed)) (aside_prepend (fun x hx => ?_) ?_) rfl
  · exact Nat.lt_of_lt_of_le (h.aside x hx) hc.nextRef
  · exact Nat.lt_of_lt_of_le hr hc.nextRef

theorem admitRequest_loras {skipped : Bool} {n : Int} {pre : ComputedPrefix} {plan : EncoderPlan}
    (hsel : selected st.sched skipped = some r)
    (hok : st.admitRequest c skipped n pre plan = .ok st') :
    ∃ s, popSelected c st.sched skipped = .ok (r, s) ∧
      (st'.sched.objs = Function.update s.objs r (started pre (s.objs r)) ∧
        st'.sched.running = s.running ++ [r] ∧ st'.sched.nextRef = s.nextRef ∧
        st'.sched.waiting = s.waiting ∧ st'.sched.skippedWaiting = s.skippedWaiting ∧
        st'.sched.requests = s.requests) ∧
      (st'.scheduledLoras = match c.maxLoras, (st.sched.objs r).loraRequest with
        | some _, some lora => st.scheduledLoras.insert lora.loraIntId
        | _, _ => st.scheduledLoras) ∧
      st'.stepSkippedWaiting = st.stepSkippedWaiting := by
  simp only [Step.admitRequest, Result.bind_eq_ok, Prod.exists] at hok
  obtain ⟨r', s, hpop, st₁, hst, hok⟩ := hok
  obtain ⟨hsel', -, waiting, skippedWaiting, rfl⟩ := popSelected_eq_ok hpop
  obtain rfl : r = r' := Option.some.inj (hsel.symm.trans hsel')
  obtain ⟨e, inputs, budget, rfl⟩ := scheduleEncoder_frame hok
  refine ⟨_, hpop, ?_⟩
  split at hst
  · cases hst
    exact ⟨⟨rfl, rfl, rfl, rfl, rfl, rfl⟩, rfl, rfl⟩
  · cases hst
    exact ⟨⟨rfl, rfl, rfl, rfl, rfl, rfl⟩, rfl, rfl⟩
  · cases hst

theorem Slots.admitRequest {skipped : Bool} {n : Int} {pre : ComputedPrefix} {plan : EncoderPlan}
    (h : Slots c s₀ st) (hsel : selected st.sched skipped = some r)
    (hlimit : st.exceedsLoras c (st.sched.objs r) = false)
    (hok : st.admitRequest c skipped n pre plan = .ok st') : Slots c s₀ st' := by
  obtain ⟨s, hpop, hsched, hloras, haside⟩ := admitRequest_loras hsel hok
  obtain ⟨hr, hc⟩ := popSelected_carries h.refs hpop
  have hobjs : s.objs = st.sched.objs := by
    obtain ⟨-, -, waiting, skippedWaiting, rfl⟩ := popSelected_eq_ok hpop
    rfl
  have hrunning : s.running = st.sched.running := by
    obtain ⟨-, -, waiting, skippedWaiting, rfl⟩ := popSelected_eq_ok hpop
    rfl
  have hlora : ∀ x, (st'.sched.objs x).loraRequest = (st.sched.objs x).loraRequest := by
    intro x
    rw [hsched.1, hobjs]
    exact lora_update (q := started pre (st.sched.objs r)) rfl x
  have hnext : st'.sched.nextRef = s.nextRef := hsched.2.2.1
  refine ⟨⟨?_, fun x hx => ?_, ⟨fun x hx => ?_, ?_, ?_, ?_⟩, ?_⟩, fun maxLoras hmax => ?_,
    fun maxLoras hmax a ha => ?_⟩
  · rw [hnext]
    exact Nat.le_trans h.nextRef hc.nextRef
  · rw [hlora]
    exact h.lora x hx
  · rw [hnext]
    rw [hsched.2.1] at hx
    rcases List.mem_append.mp hx with hx | hx
    · exact hc.refs.running x hx
    · rw [List.mem_singleton.mp hx]
      exact Nat.lt_of_lt_of_le hr hc.nextRef
  · rw [hnext, hsched.2.2.2.1]
    exact hc.refs.waiting
  · rw [hnext, hsched.2.2.2.2.1]
    exact hc.refs.skippedWaiting
  · rw [hnext, hsched.2.2.2.2.2]
    exact hc.refs.requests
  · rw [hnext, haside]
    exact fun x hx => Nat.lt_of_lt_of_le (h.aside x hx) hc.nextRef
  · have hle := h.length_le maxLoras hmax
    rw [hloras]
    unfold exceedsLoras at hlimit
    rw [hmax] at hlimit ⊢
    cases hreq : (st.sched.objs r).loraRequest with
    | none => exact hle
    | some lora =>
      simp only [hreq, decide_eq_false_iff_not] at hlimit
      show (st.scheduledLoras.insert lora.loraIntId).length ≤ maxLoras
      by_cases hin : lora.loraIntId ∈ st.scheduledLoras
      · rw [List.insert_of_mem hin]
        exact hle
      · rw [List.length_insert_of_not_mem hin]
        have : st.scheduledLoras.length ≠ maxLoras := fun heq => hlimit ⟨heq, hin⟩
        omega
  · have hmore : ∀ b ∈ st.scheduledLoras, b ∈ st'.scheduledLoras := by
      intro b hb
      rw [hloras]
      split
      · exact List.mem_insert_of_mem hb
      · exact hb
    obtain ⟨x, hx, hxa⟩ := mem_adapters.mp ha
    rw [adapter_congr (hlora x)] at hxa
    rw [hsched.2.1, hrunning] at hx
    rcases List.mem_append.mp hx with hx | hx
    · exact hmore a (h.covered maxLoras hmax a (mem_adapters.mpr ⟨x, hx, hxa⟩))
    · rw [List.mem_singleton.mp hx, adapter, Option.filter_eq_some_iff, Option.map_eq_some_iff] at hxa
      obtain ⟨⟨lora, hreq, rfl⟩, -⟩ := hxa
      rw [hloras, hmax, hreq]
      exact List.mem_insert_self

theorem Slots.withKv (h : Slots c s₀ st) (kv : KVCacheManager) : Slots c s₀ (st.withKv kv) :=
  h.carries (h.refs.carries_objs fun _ => .refl _) h.aside rfl

theorem Slots.withEncoder (h : Slots c s₀ st) (e : EncoderCacheManager) :
    Slots c s₀ (st.withEncoder e) :=
  h.carries (h.refs.carries_objs fun _ => .refl _) h.aside rfl

theorem Slots.placeWaiting {skipped goOn : Bool} {n : Int} {pre : ComputedPrefix}
    {plan : EncoderPlan} (h : Slots c s₀ st) (hsel : selected st.sched skipped = some r)
    (hlimit : st.exceedsLoras c (st.sched.objs r) = false)
    (hok : st.placeWaiting c skipped r n pre plan = .ok (goOn, st')) : Slots c s₀ st' := by
  simp only [Step.placeWaiting, Result.bind_eq_ok, Prod.exists] at hok
  obtain ⟨newBlocks, kv, -, hok⟩ := hok
  have hkv := h.withKv kv
  cases newBlocks with
  | none =>
    cases hok
    split
    · exact hkv.withEncoder _
    · exact hkv
  | some blocks =>
    dsimp only at hok
    split at hok
    · simp only [Result.bind_eq_ok, Result.pure_eq_ok, Prod.mk.injEq] at hok
      obtain ⟨st₁, hst, -, rfl⟩ := hok
      exact hkv.startLoad hst
    · simp only [Result.bind_eq_ok, Result.pure_eq_ok, Prod.mk.injEq] at hok
      obtain ⟨st₁, hst, -, rfl⟩ := hok
      exact hkv.admitRequest hsel hlimit hst

theorem exceedsLoras_congr {q q' : Request} (h : q'.loraRequest = q.loraRequest) :
    st.exceedsLoras c q' = st.exceedsLoras c q := by
  rw [exceedsLoras, h, exceedsLoras]

theorem Slots.tryWaiting {skipped goOn : Bool} (h : Slots c s₀ st)
    (hsel : selected st.sched skipped = some r)
    (hlimit : st.exceedsLoras c (st.sched.objs r) = false)
    (hok : st.tryWaiting c env skipped r = .ok (goOn, st')) : Slots c s₀ st' := by
  simp only [Step.tryWaiting, Result.bind_eq_ok, Prod.exists] at hok
  obtain ⟨pre, s, hpre, hok⟩ := hok
  have hstep : Slots c s₀ { st with sched := s } ∧ selected s skipped = some r ∧
      ∀ x, (s.objs x).loraRequest = (st.sched.objs x).loraRequest := by
    rcases computedPrefix_frame hpre with rfl | ⟨-, ext, rfl⟩
    · exact ⟨h, hsel, fun _ => rfl⟩
    · exact ⟨h.carries (h.refs.carries_objs (record_update ⟨rfl, rfl⟩)) h.aside rfl, hsel, lora_update rfl⟩
  obtain ⟨hslots, hsel, hlora⟩ := hstep
  cases pre with
  | none =>
    simp only [Result.bind_eq_ok, Result.pure_eq_ok, Prod.mk.injEq] at hok
    obtain ⟨st₁, hst, -, rfl⟩ := hok
    exact hslots.skipSelected hst
  | some pre =>
    simp only [Result.bind_eq_ok] at hok
    obtain ⟨plan, -, hok⟩ := hok
    cases plan with
    | none =>
      cases hok
      exact hslots
    | some plan =>
      dsimp only at hok
      split at hok
      · cases hok
        exact hslots.withEncoder _
      · simp only [Result.bind_eq_ok] at hok
        obtain ⟨n, -, hok⟩ := hok
        split at hok
        · cases hok
          exact hslots.withEncoder _
        · refine (hslots.withEncoder plan.encoder).placeWaiting hsel ?_ hok
          exact (exceedsLoras_congr (hlora r)).trans hlimit

theorem Slots.visitWaiting {goOn : Bool} (h : Slots c s₀ st)
    (hok : st.visitWaiting c env = .ok (goOn, st')) : Slots c s₀ st' := by
  unfold Step.visitWaiting at hok
  dsimp only at hok
  split at hok
  · cases hok
  · rename_i r hr
    simp only [Result.bind_eq_ok, Prod.exists] at hok
    obtain ⟨ready, s, hpromote, hok⟩ := hok
    have hstep : Slots c s₀ { st with sched := s } ∧
        selected s (selectsSkipped c st.sched) = some r := by
      split at hpromote
      · rcases tryPromote_cases hpromote with ⟨-, rfl⟩ | ⟨-, -, rfl⟩ | ⟨-, -, _, _, _, _, _, rfl⟩
        · exact ⟨h, hr⟩
        · exact ⟨h.carries (h.refs.carries_objs (record_update ⟨rfl, rfl⟩)) h.aside rfl, hr⟩
        · exact ⟨h.of_lora (Nat.le_refl _) (fun x _ => lora_update (by rfl) x) (List.Sublist.refl _)
            ⟨h.refs.running, h.refs.waiting, h.refs.skippedWaiting, h.refs.requests⟩ h.aside rfl,
            hr⟩
      · cases hpromote
        exact ⟨h, hr⟩
    obtain ⟨hslots, hsel⟩ := hstep
    split at hok
    · simp only [Result.bind_eq_ok, Result.pure_eq_ok, Prod.mk.injEq] at hok
      obtain ⟨st₁, hst, -, rfl⟩ := hok
      exact hslots.skipSelected hst
    · rename_i hready
      rw [Bool.or_eq_true, not_or] at hready
      exact hslots.tryWaiting hsel (eq_false_of_ne_true hready.2) hok

theorem Slots.scheduleWaiting {fuel : Nat} (h : Slots c s₀ st)
    (hok : st.scheduleWaiting c env fuel = .ok st') : Slots c s₀ st' := by
  induction fuel generalizing st with
  | zero =>
    cases hok
    exact h
  | succ fuel ih =>
    unfold Step.scheduleWaiting at hok
    split at hok
    · simp only [Result.bind_eq_ok, Prod.exists] at hok
      obtain ⟨goOn, st₁, hvisit, hok⟩ := hok
      have hone := h.visitWaiting hvisit
      split at hok
      · exact ih hone hok
      · cases hok
        exact hone
    · cases hok
      exact h

theorem Ended.card_le (h : Ended P s₀ st) (hs : s₀.RefsOk) :
    (st.sched.adapters st.sched.running).card ≤ (s₀.adapters s₀.running).card :=
  Finset.card_le_card (Scheduler.adapters_subset h.running fun r hr =>
    adapter_congr (h.lora r (hs.running r (h.running r hr))))

theorem Ended.slots (h : Ended P s₀ st) (hs : s₀.RefsOk) {loras : List Nat}
    (hP : P) (hnil : st.preemptedReqs = []) (hbudget : st.tokenBudget > 0)
    (hloras : ∀ maxLoras, c.maxLoras = some maxLoras → loras.length ≤ maxLoras ∧
      ∀ a ∈ st.sched.adapters st.scheduledRunningReqs, a ∈ loras) :
    Slots c s₀ { st with scheduledLoras := loras } where
  toInCall := ⟨h.nextRef, h.lora, h.refs, h.aside⟩
  length_le := fun maxLoras hmax => (hloras maxLoras hmax).1
  covered := by
    intro maxLoras hmax a ha
    obtain ⟨r, hr, hra⟩ := mem_adapters.mp ha
    refine (hloras maxLoras hmax).2 a (mem_adapters.mpr ⟨r, ?_, hra⟩)
    have hsame := adapter_congr (h.lora r (hs.running r (h.running r hr)))
    refine h.visited hP hnil hbudget r hr ?_
    rw [← hsame]
    exact Option.isSome_of_eq_some hra

theorem requeueSkipped_refs (h : InCall s₀ st) : (st.requeueSkipped c).sched.RefsOk := by
  refine ⟨h.refs.running, h.refs.waiting, fun r hr => ?_, h.refs.requests⟩
  rcases List.mem_append.mp ((RequestQueue.prependRequests_perm _ _).mem_iff.mp hr) with hr | hr
  · exact h.aside r hr
  · exact h.refs.skippedWaiting r hr

theorem scheduleRequests_loras {s : Scheduler} (hs : s.RefsOk)
    (hle : ∀ maxLoras, c.maxLoras = some maxLoras → (s.adapters s.running).card ≤ maxLoras)
    (hpass : passesOverNoAdapter c env (s.running.length + 1) 0 (start c s) = true)
    (hok : scheduleRequests c env s = .ok st) :
    st.sched.RefsOk ∧ ∀ maxLoras, c.maxLoras = some maxLoras →
      (st.sched.adapters st.sched.running).card ≤ maxLoras := by
  simp only [scheduleRequests, Result.bind_eq_ok] at hok
  obtain ⟨st₁, hrunning, st₂, hrecord, hok⟩ := hok
  have hended := scheduleRunning_ended (start_rounds (P := True) hs) hs (fun _ => by omega)
    (fun _ => hpass) hrunning
  obtain ⟨loras, hrecord', hloras⟩ := hended.recordLoras hs hle
  rw [hrecord'] at hrecord
  cases hrecord
  have hkept : ∀ maxLoras, c.maxLoras = some maxLoras →
      (st₁.sched.adapters st₁.sched.running).card ≤ maxLoras :=
    fun maxLoras hmax => (hended.card_le hs).trans (hle maxLoras hmax)
  split at hok
  · rename_i hfree
    simp only [Result.bind_eq_ok, Result.pure_eq_ok] at hok
    obtain ⟨st₃, hwaiting, rfl⟩ := hok
    by_cases hbudget : st₁.tokenBudget > 0
    · have hslots := (hended.slots hs trivial hfree.1 hbudget hloras).scheduleWaiting hwaiting
      exact ⟨requeueSkipped_refs hslots.toInCall, fun maxLoras hmax => hslots.card_le hmax⟩
    · unfold Step.scheduleWaiting at hwaiting
      rw [if_neg fun h => hbudget h.2.1] at hwaiting
      cases hwaiting
      exact ⟨@requeueSkipped_refs _ s _ ⟨hended.nextRef, hended.lora, hended.refs, hended.aside⟩,
        hkept⟩
  · cases hok
    exact ⟨hended.refs, hkept⟩

end Waiting

end Step

namespace Scheduler

variable {c : SchedulerConfig} {env : Outside} {s s' : Scheduler}

structure Adapted (c : SchedulerConfig) (s : Scheduler) : Prop where
  refs : s.RefsOk
  card_le : ∀ maxLoras, c.maxLoras = some maxLoras → (s.adapters s.running).card ≤ maxLoras

theorem Adapted.carries (h : Adapted c s) (hc : Carries s s') : Adapted c s' :=
  ⟨hc.refs, fun maxLoras hmax =>
    (Finset.card_le_card (hc.adapters_subset h.refs)).trans (h.card_le maxLoras hmax)⟩

theorem Adapted.schedule {o : SchedulerOutput} (h : Adapted c s)
    (hpass : Step.passesOverNoAdapter c env (s.running.length + 1) 0 (Step.start c s) = true)
    (hok : schedule c env s = .ok (o, s')) : Adapted c s' := by
  simp only [Scheduler.schedule, Result.bind_eq_ok, Prod.exists] at hok
  obtain ⟨st, hst, o₁, s₁, hout, hok⟩ := hok
  obtain ⟨hrefs, hcard⟩ := Step.scheduleRequests_loras h.refs h.card_le hpass hst
  have hst : Adapted c st.sched := ⟨hrefs, hcard⟩
  have hout := makeOutput_carries hrefs hout
  exact (hst.carries hout).carries (updateAfterSchedule_carries hout.refs hok)

end Scheduler

namespace Engine

variable {c : SchedulerConfig} {e e' : Engine}

theorem adapted_init : Scheduler.Adapted c (init c).sched :=
  ⟨⟨nofun, nofun, nofun, nofun⟩, fun maxLoras _ => Nat.zero_le maxLoras⟩

theorem adapted_lorasOk (h : Scheduler.Adapted c e.sched) : e.sched.LorasOk c where
  card_le := h.card_le
  asserted := by
    intro env st hst
    have hended := Step.scheduleRunning_ended (Step.start_rounds (P := False) h.refs) h.refs
      (fun _ => by omega) False.elim hst
    obtain ⟨loras, hrecord, -⟩ := hended.recordLoras h.refs h.card_le
    exact ⟨_, hrecord⟩

theorem adapted_step (h : Scheduler.Adapted c e.sched) {op : EngineOp}
    (hop : op.keepsAdapters c e = true) (hstep : e.step c op = .ok e') :
    Scheduler.Adapted c e'.sched := by
  cases op with
  | addRequest env params =>
    simp only [Engine.step, Result.bind_eq_ok, Result.pure_eq_ok] at hstep
    obtain ⟨s, hs, rfl⟩ := hstep
    exact h.carries (Scheduler.addRequest_carries h.refs hs)
  | schedule env =>
    simp only [Engine.step, Result.bind_eq_ok, Prod.exists, Result.pure_eq_ok] at hstep
    obtain ⟨o, s, hs, rfl⟩ := hstep
    exact h.schedule hop hs
  | updateFromOutput env m =>
    obtain ⟨o, rest, outputs, s, -, hs, rfl⟩ := step_updateFromOutput hstep
    exact h.carries (Scheduler.updateFromOutput_carries h.refs hs)
  | finishRequests env ids status =>
    simp only [Engine.step, Result.bind_eq_ok, Result.pure_eq_ok] at hstep
    obtain ⟨s, hs, rfl⟩ := hstep
    exact h.carries (Scheduler.finishRequests_carries h.refs hs)
  | resetPrefixCache reset =>
    simp only [Engine.step, Result.bind_eq_ok, Prod.exists, Result.pure_eq_ok] at hstep
    obtain ⟨success, s, hs, rfl⟩ := hstep
    exact h.carries (Scheduler.resetPrefixCache_carries h.refs hs)
  | setPauseState p =>
    cases hstep
    exact ⟨⟨h.refs.running, h.refs.waiting, h.refs.skippedWaiting, h.refs.requests⟩, h.card_le⟩

end Engine

/-- In every run where no call of `schedule()` passes over a running request with an adapter, the
LoRA slots suffice. -/
theorem lorasOk_of_keepsAdapters (c : SchedulerConfig) (ops : List EngineOp)
    (h : Guarded (Engine.step c) (fun e op => op.keepsAdapters c e) (Engine.init c) ops) :
    Throughout (Engine.step c) (fun e => e.sched.LorasOk c) (Engine.init c) ops :=
  throughout_of_inv
    (fun _ _ _ (hinv : Scheduler.Adapted c _) hop hstep => Engine.adapted_step hinv hop hstep)
    (fun _ hinv => Engine.adapted_lorasOk hinv) Engine.adapted_init h

def oneSlot : SchedulerConfig where
  kv :=
    { numGpuBlocks := 9
      enableCaching := false
      hashBlockSize := 1
      maxModelLen := 8
      useEagle := false
      kvCacheGroups := [.fullAttention ⟨1, 1, 1, .float16, none⟩ 1 none none] }
  policy := .fcfs
  maxNumRunningReqs := 2
  maxNumScheduledTokens := 8
  usePp := true
  maxLoras := some 1

def adapted (requestId : ReqId) (loraIntId : Nat) : RequestParams where
  requestId := requestId
  promptTokenIds := some [1, 2]
  samplingParams := some { maxTokens := 2 }
  loraRequest := some ⟨"adapter", loraIntId⟩

def oneAfterTheOther : List EngineOp :=
  [.addRequest {} (adapted "a" 1), .addRequest {} (adapted "b" 2), .schedule {},
   .updateFromOutput {} { sampledTokenIds := fun _ => [5] }, .schedule {},
   .updateFromOutput {} { sampledTokenIds := fun _ => [5] }, .schedule {}]

theorem lorasOk_oneAfterTheOther : Throughout (Engine.step oneSlot)
    (fun e => e.sched.LorasOk oneSlot) (Engine.init oneSlot) oneAfterTheOther :=
  lorasOk_of_keepsAdapters oneSlot oneAfterTheOther (by decide +kernel)

/-- The first request is passed over while its step is in flight, and the second one starts. -/
def twoInFlight : List EngineOp :=
  [.addRequest {} (adapted "a" 1), .addRequest {} (adapted "b" 2), .schedule {}, .schedule {}]

theorem not_lorasOk_twoInFlight : ∃ e,
    runSteps (Engine.step oneSlot) (Engine.init oneSlot) twoInFlight = .ok e ∧
      e.sched.running = [0, 1] ∧ e.sched.adapters e.sched.running = {1, 2} ∧
      ¬ e.sched.LorasOk oneSlot := by
  obtain ⟨e, hrun, he⟩ := Result.exists_of_holds
    (x := runSteps (Engine.step oneSlot) (Engine.init oneSlot) twoInFlight)
    (p := fun e => e.sched.running = [0, 1] ∧ e.sched.adapters e.sched.running = {1, 2})
    (by decide +kernel)
  rw [decide_eq_true_eq] at he
  refine ⟨e, hrun, he.1, he.2, fun h => ?_⟩
  have hcard := h.card_le 1 rfl
  rw [he.2] at hcard
  exact absurd hcard (by decide)

end Vllm
