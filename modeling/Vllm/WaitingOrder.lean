import Vllm.QueueSchedule

namespace Vllm

namespace Scheduler

def inOrder (s : Scheduler) : List Ref := s.skippedWaiting ++ s.waiting

structure SameQueues (s s' : Scheduler) : Prop where
  waiting : s'.waiting = s.waiting
  skippedWaiting : s'.skippedWaiting = s.skippedWaiting
  running : s'.running = s.running

variable {c : SchedulerConfig} {s s₁ s' : Scheduler}

theorem SameQueues.refl (s : Scheduler) : SameQueues s s := ⟨rfl, rfl, rfl⟩

theorem SameQueues.trans (h : SameQueues s s₁) (h' : SameQueues s₁ s') : SameQueues s s' :=
  ⟨h'.waiting.trans h.waiting, h'.skippedWaiting.trans h.skippedWaiting, h'.running.trans h.running⟩

theorem SameQueues.inOrder (h : SameQueues s s') : s'.inOrder = s.inOrder := by
  unfold Scheduler.inOrder
  rw [h.waiting, h.skippedWaiting]

theorem advanceRequest_sameQueues (r : Ref) (n : Int) : SameQueues s (s.advanceRequest c r n) := by
  unfold advanceRequest
  dsimp only
  split <;> exact ⟨rfl, rfl, rfl⟩

theorem advanceRequests_sameQueues {o o' : SchedulerOutput} {items : List (ReqId × Int)}
    (h : advanceRequests c o items s = .ok (o', s')) :
    SameQueues s s' ∧ o'.preemptedReqIds = o.preemptedReqIds := by
  induction items generalizing s o with
  | nil =>
    cases h
    exact ⟨.refl _, rfl⟩
  | cons item items ih =>
    obtain ⟨reqId, n⟩ := item
    unfold advanceRequests at h
    split at h
    · cases h
    · rename_i r hr
      obtain ⟨hqueues, hids⟩ := ih h
      exact ⟨(advanceRequest_sameQueues r n).trans hqueues, hids⟩

theorem reservePlaceholders_sameQueues {o o' : SchedulerOutput} {reqIds : List ReqId}
    (h : reservePlaceholders c o reqIds s = .ok (o', s')) :
    SameQueues s s' ∧ o'.preemptedReqIds = o.preemptedReqIds := by
  induction reqIds generalizing s o with
  | nil =>
    cases h
    exact ⟨.refl _, rfl⟩
  | cons reqId reqIds ih =>
    unfold reservePlaceholders at h
    split at h
    · cases h
    · obtain ⟨hqueues, hids⟩ := ih h
      exact ⟨⟨hqueues.waiting, hqueues.skippedWaiting, hqueues.running⟩, hids⟩

theorem updateAfterSchedule_sameQueues {o o' : SchedulerOutput}
    (h : updateAfterSchedule c o s = .ok (o', s')) :
    SameQueues s s' ∧ o'.preemptedReqIds = o.preemptedReqIds := by
  simp only [updateAfterSchedule, Result.bind_eq_ok, Prod.exists] at h
  obtain ⟨o₁, s₁, hadvance, h⟩ := h
  obtain ⟨hqueues, hids⟩ := advanceRequests_sameQueues hadvance
  split at h
  · obtain ⟨hqueues', hids'⟩ := reservePlaceholders_sameQueues h
    exact ⟨hqueues.trans ⟨hqueues'.waiting, hqueues'.skippedWaiting, hqueues'.running⟩, hids'.trans hids⟩
  · cases h
    exact ⟨⟨hqueues.waiting, hqueues.skippedWaiting, hqueues.running⟩, hids⟩

end Scheduler

namespace Step

open Scheduler

inductive Verdict
  | admitted
  | blocked
  | overLoras
  | undecided
  | loading
  deriving DecidableEq, Repr

inductive Promoted (c : SchedulerConfig) (env : Outside) (s : Scheduler) (r : Ref) : Scheduler → Prop
  | ready : isBlockedWaitingStatus (s.objs r).status = false → Promoted c env s r s
  | promoted {s' : Scheduler} : isBlockedWaitingStatus (s.objs r).status = true →
      tryPromote c env s r = .ok (true, s') → Promoted c env s r s'

inductive Decides (c : SchedulerConfig) (env : Outside) (st : Step) (r : Ref) : Verdict → Step → Prop
  | admitted {st' : Step} : (st'.sched.objs r).status = .running → Decides c env st r .admitted st'
  | blocked {s : Scheduler} {st' : Step} : isBlockedWaitingStatus (st.sched.objs r).status = true →
      tryPromote c env st.sched r = .ok (false, s) → Decides c env st r .blocked st'
  | overLoras {s : Scheduler} {st' : Step} : Promoted c env st.sched r s →
      st.exceedsLoras c (s.objs r) = true → Decides c env st r .overLoras st'
  | undecided {s : Scheduler} {n : Int} {st' : Step} : Promoted c env st.sched r s → c.hasConnector = true →
      (env.getNumNewMatchedTokens (s.objs r) n).1 = none → Decides c env st r .undecided st'
  | loading {s s' : Scheduler} {pre : ComputedPrefix} {st' : Step} : Promoted c env st.sched r s →
      computedPrefix c env s r = .ok (some pre, s') → pre.loadKvAsync = true →
      (st'.sched.objs r).status = .waitingForRemoteKvs → Decides c env st r .loading st'

/-- What a round does to the queues. -/
structure Turn (v : Verdict) (r : Ref) (st st' : Step) : Prop where
  inOrder : st.sched.inOrder = r :: st'.sched.inOrder
  aside : st'.stepSkippedWaiting = if v = .admitted then st.stepSkippedWaiting else r :: st.stepSkippedWaiting
  running : st'.sched.running = if v = .admitted then st.sched.running ++ [r] else st.sched.running

structure Rests (st st' : Step) : Prop where
  queues : SameQueues st.sched st'.sched
  aside : st'.stepSkippedWaiting = st.stepSkippedWaiting

variable {c : SchedulerConfig} {env : Outside} {st st₁ st' : Step} {v : Verdict} {r : Ref} {skipped : Bool}

theorem Rests.refl (st : Step) : Rests st st := ⟨.refl _, rfl⟩

theorem Rests.trans (h : Rests st st₁) (h' : Rests st₁ st') : Rests st st' :=
  ⟨h.queues.trans h'.queues, h'.aside.trans h.aside⟩

theorem Turn.of_rests (hrests : Rests st st₁) (h : Turn v r st₁ st') : Turn v r st st' := by
  have hinOrder := h.inOrder
  have haside := h.aside
  have hrunning := h.running
  rw [hrests.queues.inOrder] at hinOrder
  rw [hrests.aside] at haside
  rw [hrests.queues.running] at hrunning
  exact ⟨hinOrder, haside, hrunning⟩

theorem popSelected_fcfs {s s' : Scheduler} (hpolicy : c.policy = .fcfs)
    (hskipped : skipped = selectsSkipped c s) (h : popSelected c s skipped = .ok (r, s')) :
    s.inOrder = r :: s'.inOrder := by
  subst hskipped
  have hselects : selectsSkipped c s = decide (s.skippedWaiting ≠ []) := by
    unfold selectsSkipped
    rw [hpolicy]
  unfold popSelected at h
  rw [hpolicy, hselects] at h
  unfold Scheduler.inOrder
  cases hqueue : s.skippedWaiting with
  | nil =>
    simp only [hqueue, ne_eq, not_true_eq_false, decide_false, Bool.false_eq_true, if_false] at h
    split at h
    · cases h
    · rename_i queue hpop
      cases h
      cases hwaiting : s.waiting with
      | nil =>
        rw [hwaiting] at hpop
        cases hpop
      | cons x waiting =>
        rw [hwaiting] at hpop
        obtain ⟨rfl, rfl⟩ : x = r ∧ waiting = queue := by
          cases hpop
          exact ⟨rfl, rfl⟩
        rfl
  | cons x queue =>
    simp only [hqueue, ne_eq, reduceCtorEq, not_false_eq_true, decide_true, if_true] at h
    cases h
    rfl

theorem selectsSkipped_fcfs {s s' : Scheduler} (hpolicy : c.policy = .fcfs) (h : SameQueues s s') :
    selectsSkipped c s' = selectsSkipped c s := by
  unfold selectsSkipped
  rw [hpolicy]
  dsimp only
  rw [h.skippedWaiting]

theorem popSelected_selected {s s' : Scheduler} {r' : Ref} (hsel : selected s skipped = some r)
    (h : popSelected c s skipped = .ok (r', s')) : r' = r := by
  obtain ⟨hsel', -⟩ := popSelected_eq_ok h
  exact Option.some.inj (hsel'.symm.trans hsel)

theorem skipSelected_turn (hpolicy : c.policy = .fcfs) (hskipped : skipped = selectsSkipped c st.sched)
    (hsel : selected st.sched skipped = some r) (hv : v ≠ .admitted) (h : st.skipSelected c skipped = .ok st') :
    Turn v r st st' := by
  simp only [skipSelected, Result.bind_eq_ok, Prod.exists, Result.pure_eq_ok] at h
  obtain ⟨r', s, hpop, rfl⟩ := h
  obtain rfl := popSelected_selected hsel hpop
  have horder := popSelected_fcfs hpolicy hskipped hpop
  obtain ⟨-, -, waiting, skippedWaiting, rfl⟩ := popSelected_eq_ok hpop
  refine ⟨horder, ?_, ?_⟩
  · rw [if_neg hv, hpolicy]
    rfl
  · rw [if_neg hv]

theorem startLoad_turn {pre : ComputedPrefix} (hpolicy : c.policy = .fcfs)
    (hskipped : skipped = selectsSkipped c st.sched) (hsel : selected st.sched skipped = some r)
    (h : st.startLoad c skipped pre = .ok st') :
    Turn .loading r st st' ∧ (st'.sched.objs r).status = .waitingForRemoteKvs := by
  simp only [startLoad, Result.bind_eq_ok, Prod.exists, Result.pure_eq_ok] at h
  obtain ⟨r', s, hpop, rfl⟩ := h
  obtain rfl := popSelected_selected hsel hpop
  have horder := popSelected_fcfs hpolicy hskipped hpop
  obtain ⟨-, -, waiting, skippedWaiting, rfl⟩ := popSelected_eq_ok hpop
  refine ⟨⟨horder, ?_, rfl⟩, ?_⟩
  · rw [hpolicy]
    rfl
  · simp only [Scheduler.modify, Function.update_self]

theorem admitRequest_turn {n : Int} {pre : ComputedPrefix} {plan : EncoderPlan} (hpolicy : c.policy = .fcfs)
    (hskipped : skipped = selectsSkipped c st.sched) (hsel : selected st.sched skipped = some r)
    (h : st.admitRequest c skipped n pre plan = .ok st') :
    Turn .admitted r st st' ∧ (st'.sched.objs r).status = .running := by
  obtain ⟨r', s, new, resumed, loras, hpop, -, h⟩ := admitRequest_eq_ok h
  obtain rfl := popSelected_selected hsel hpop
  have horder := popSelected_fcfs hpolicy hskipped hpop
  obtain ⟨-, -, waiting, skippedWaiting, rfl⟩ := popSelected_eq_ok hpop
  obtain ⟨e, inputs, budget, rfl⟩ := scheduleEncoder_frame h
  refine ⟨⟨horder, rfl, rfl⟩, ?_⟩
  show (Function.update st.sched.objs r' (started pre (st.sched.objs r')) r').status = .running
  rw [Function.update_self]
  rfl

theorem tryPromote_sameQueues {s s' : Scheduler} {ready : Bool} (h : tryPromote c env s r = .ok (ready, s')) :
    SameQueues s s' ∧ (s'.objs r).loraRequest = (s.objs r).loraRequest := by
  rcases tryPromote_cases h with ⟨-, rfl⟩ | ⟨-, -, rfl⟩ | ⟨-, -, computed, cached, kv, failed, finished, rfl⟩
  · exact ⟨.refl _, rfl⟩
  · refine ⟨⟨rfl, rfl, rfl⟩, ?_⟩
    simp only [Scheduler.modify, Function.update_self]
  · refine ⟨⟨rfl, rfl, rfl⟩, ?_⟩
    simp only [Function.update_self]

theorem computedPrefix_sameQueues {s s' : Scheduler} {pre : Option ComputedPrefix}
    (h : computedPrefix c env s r = .ok (pre, s')) : SameQueues s s' := by
  rcases computedPrefix_frame h with rfl | ⟨-, ext, rfl⟩
  · exact .refl _
  · exact ⟨rfl, rfl, rfl⟩

theorem computedPrefix_undecided {s s' : Scheduler} (h : computedPrefix c env s r = .ok (none, s')) :
    c.hasConnector = true ∧ ∃ n, (env.getNumNewMatchedTokens (s.objs r) n).1 = none := by
  unfold computedPrefix at h
  dsimp only at h
  split at h
  · simp only [Result.bind_eq_ok, Prod.exists] at h
    obtain ⟨blocks, n, -, h⟩ := h
    split at h
    · rename_i hconn
      split at h
      · rename_i b hmatched
        exact ⟨hconn, n, by rw [hmatched]⟩
      · simp only [Result.bind_eq_ok, Result.pure_eq_ok, Prod.mk.injEq, reduceCtorEq, false_and, and_false,
          exists_false] at h
    · simp only [Result.bind_eq_ok, Result.pure_eq_ok, Prod.mk.injEq, reduceCtorEq, false_and, and_false,
        exists_false] at h
  · cases h

theorem placeWaiting_turn {n : Int} {pre : ComputedPrefix} {plan : EncoderPlan} {goOn : Bool}
    (hpolicy : c.policy = .fcfs) (hskipped : skipped = selectsSkipped c st.sched)
    (hsel : selected st.sched skipped = some r) (h : st.placeWaiting c skipped r n pre plan = .ok (goOn, st')) :
    (goOn = false ∧ Rests st st') ∨
      (goOn = true ∧ pre.loadKvAsync = true ∧ Turn .loading r st st' ∧
        (st'.sched.objs r).status = .waitingForRemoteKvs) ∨
      (goOn = true ∧ Turn .admitted r st st' ∧ (st'.sched.objs r).status = .running) := by
  simp only [placeWaiting, Result.bind_eq_ok, Prod.exists] at h
  obtain ⟨newBlocks, kv, -, h⟩ := h
  cases newBlocks with
  | none =>
    cases h
    refine .inl ⟨rfl, ?_⟩
    split <;> exact ⟨⟨rfl, rfl, rfl⟩, rfl⟩
  | some blocks =>
    dsimp only at h
    have hrests : Rests st (st.withKv kv) := ⟨⟨rfl, rfl, rfl⟩, rfl⟩
    have hskipped₁ : skipped = selectsSkipped c (st.withKv kv).sched := hskipped
    have hsel₁ : selected (st.withKv kv).sched skipped = some r := hsel
    split at h
    · rename_i hload
      simp only [Result.bind_eq_ok, Result.pure_eq_ok, Prod.mk.injEq] at h
      obtain ⟨st₁, hst, rfl, rfl⟩ := h
      obtain ⟨hturn, hstatus⟩ := startLoad_turn hpolicy hskipped₁ hsel₁ hst
      exact .inr (.inl ⟨rfl, hload, .of_rests hrests hturn, hstatus⟩)
    · simp only [Result.bind_eq_ok, Result.pure_eq_ok, Prod.mk.injEq] at h
      obtain ⟨st₁, hst, rfl, rfl⟩ := h
      obtain ⟨hturn, hstatus⟩ := admitRequest_turn hpolicy hskipped₁ hsel₁ hst
      exact .inr (.inr ⟨rfl, .of_rests hrests hturn, hstatus⟩)

def RoundEnds (c : SchedulerConfig) (env : Outside) (st : Step) (r : Ref) (goOn : Bool) (st' : Step) : Prop :=
  (goOn = false ∧ Rests st st') ∨ ∃ v, goOn = true ∧ Turn v r st st' ∧ Decides c env st r v st'

theorem tryWaiting_ends {s : Scheduler} {goOn : Bool} (hpolicy : c.policy = .fcfs)
    (hskipped : skipped = selectsSkipped c st.sched) (hsel : selected st.sched skipped = some r)
    (hpromoted : Promoted c env st.sched r s) (hqueues : SameQueues st.sched s)
    (h : ({ st with sched := s } : Step).tryWaiting c env skipped r = .ok (goOn, st')) :
    RoundEnds c env st r goOn st' := by
  simp only [tryWaiting, Result.bind_eq_ok, Prod.exists] at h
  obtain ⟨pre, s₁, hpre, h⟩ := h
  have hqueues₁ := hqueues.trans (computedPrefix_sameQueues hpre)
  have hskipped₁ : skipped = selectsSkipped c s₁ := hskipped.trans (selectsSkipped_fcfs hpolicy hqueues₁).symm
  have hsel₁ : selected s₁ skipped = some r := by
    unfold selected
    rw [hqueues₁.waiting, hqueues₁.skippedWaiting]
    exact hsel
  have hrests : Rests st { st with sched := s₁ } := ⟨hqueues₁, rfl⟩
  cases pre with
  | none =>
    simp only [Result.bind_eq_ok, Result.pure_eq_ok, Prod.mk.injEq] at h
    obtain ⟨st₁, hst, rfl, rfl⟩ := h
    obtain ⟨hconn, n, hnone⟩ := computedPrefix_undecided hpre
    have hturn : Turn .undecided r { st with sched := s₁ } st₁ :=
      skipSelected_turn hpolicy hskipped₁ hsel₁ (by decide) hst
    exact .inr ⟨.undecided, rfl, .of_rests hrests hturn, .undecided hpromoted hconn hnone⟩
  | some pre =>
    simp only [Result.bind_eq_ok] at h
    obtain ⟨plan, -, h⟩ := h
    cases plan with
    | none =>
      cases h
      exact .inl ⟨rfl, hrests⟩
    | some plan =>
      dsimp only at h
      split at h
      · cases h
        exact .inl ⟨rfl, hrests.trans ⟨⟨rfl, rfl, rfl⟩, rfl⟩⟩
      · simp only [Result.bind_eq_ok] at h
        obtain ⟨n, -, h⟩ := h
        split at h
        · cases h
          exact .inl ⟨rfl, hrests.trans ⟨⟨rfl, rfl, rfl⟩, rfl⟩⟩
        · have hrests₁ : Rests st (withEncoder { st with sched := s₁ } plan.encoder) :=
            hrests.trans ⟨⟨rfl, rfl, rfl⟩, rfl⟩
          have hskipped₂ : skipped = selectsSkipped c (withEncoder { st with sched := s₁ } plan.encoder).sched :=
            hskipped₁
          have hsel₂ : selected (withEncoder { st with sched := s₁ } plan.encoder).sched skipped = some r := hsel₁
          rcases placeWaiting_turn hpolicy hskipped₂ hsel₂ h with
            ⟨hstop, hrest⟩ | ⟨hgo, hload, hturn, hstatus⟩ | ⟨hgo, hturn, hstatus⟩
          · exact .inl ⟨hstop, hrests₁.trans hrest⟩
          · exact .inr ⟨.loading, hgo, .of_rests hrests₁ hturn, .loading hpromoted hpre hload hstatus⟩
          · exact .inr ⟨.admitted, hgo, .of_rests hrests₁ hturn, .admitted hstatus⟩

theorem visitWaiting_ends {goOn : Bool} (hpolicy : c.policy = .fcfs)
    (h : st.visitWaiting c env = .ok (goOn, st')) : ∃ r, RoundEnds c env st r goOn st' := by
  unfold visitWaiting at h
  dsimp only at h
  split at h
  · cases h
  · rename_i r hr
    refine ⟨r, ?_⟩
    have hsel : selected st.sched (selectsSkipped c st.sched) = some r := hr
    simp only [Result.bind_eq_ok, Prod.exists] at h
    obtain ⟨ready, s, hpromote, h⟩ := h
    have hready : SameQueues st.sched s ∧ (s.objs r).loraRequest = (st.sched.objs r).loraRequest := by
      split at hpromote
      · exact tryPromote_sameQueues hpromote
      · cases hpromote
        exact ⟨.refl _, rfl⟩
    have hpromoted : ready = true → Promoted c env st.sched r s := by
      rintro rfl
      split at hpromote
      · rename_i hblocked
        exact .promoted hblocked hpromote
      · rename_i hblocked
        cases hpromote
        exact .ready (by simpa using hblocked)
    have hrests : Rests st { st with sched := s } := ⟨hready.1, rfl⟩
    split at h
    · rename_i hskip
      simp only [Result.bind_eq_ok, Result.pure_eq_ok, Prod.mk.injEq] at h
      obtain ⟨st₁, hst, rfl, rfl⟩ := h
      have hskipped := (selectsSkipped_fcfs hpolicy hready.1).symm
      have hsel₁ : selected s (selectsSkipped c st.sched) = some r := by
        unfold selected
        rw [hready.1.waiting, hready.1.skippedWaiting]
        exact hsel
      have hturn : ∀ v, v ≠ .admitted → Turn v r st st₁ := fun v hv =>
        .of_rests hrests (skipSelected_turn hpolicy hskipped hsel₁ hv hst : Turn v r { st with sched := s } st₁)
      cases ready with
      | false =>
        have hblocked : isBlockedWaitingStatus (st.sched.objs r).status = true ∧
            tryPromote c env st.sched r = .ok (false, s) := by
          split at hpromote
          · rename_i hblocked
            exact ⟨hblocked, hpromote⟩
          · cases hpromote
        exact .inr ⟨.blocked, rfl, hturn .blocked (by decide), .blocked hblocked.1 hblocked.2⟩
      | true =>
        have hover : ({ st with sched := s } : Step).exceedsLoras c (s.objs r) = true := by simpa using hskip
        exact .inr ⟨.overLoras, rfl, hturn .overLoras (by decide), .overLoras (hpromoted rfl) hover⟩
    · rename_i hskip
      have htrue : ready = true := by
        cases ready with
        | true => rfl
        | false => simp at hskip
      exact tryWaiting_ends hpolicy rfl hsel (hpromoted htrue) hready.1 h

/-- The rounds of the waiting loop, with what they decide. -/
inductive WaitingRounds (c : SchedulerConfig) (env : Outside) : Step → List (Ref × Verdict) → Step → Prop
  | nil (st : Step) : WaitingRounds c env st [] st
  | cons {st st₁ st' : Step} {r : Ref} {v : Verdict} {rounds : List (Ref × Verdict)} :
      st.visitWaiting c env = .ok (true, st₁) → Decides c env st r v st₁ → WaitingRounds c env st₁ rounds st' →
      WaitingRounds c env st ((r, v) :: rounds) st'

def admittedOf (rounds : List (Ref × Verdict)) : List Ref := (rounds.filter (·.2 = .admitted)).map Prod.fst

def skippedOf (rounds : List (Ref × Verdict)) : List Ref := (rounds.filter (·.2 ≠ .admitted)).map Prod.fst

structure Passed (rounds : List (Ref × Verdict)) (st st' : Step) : Prop where
  inOrder : st.sched.inOrder = rounds.map Prod.fst ++ st'.sched.inOrder
  aside : st'.stepSkippedWaiting = (skippedOf rounds).reverse ++ st.stepSkippedWaiting
  running : st'.sched.running = st.sched.running ++ admittedOf rounds

theorem Passed.of_rests (h : Rests st st') : Passed [] st st' :=
  ⟨h.queues.inOrder.symm, h.aside, h.queues.running.trans (List.append_nil _).symm⟩

theorem Passed.cons {rounds : List (Ref × Verdict)} (h : Turn v r st st₁) (h' : Passed rounds st₁ st') :
    Passed ((r, v) :: rounds) st st' := by
  have haside := h.aside
  have hrunning := h.running
  refine ⟨?_, ?_, ?_⟩
  · rw [h.inOrder, h'.inOrder]
    rfl
  · rw [h'.aside, haside]
    unfold skippedOf
    by_cases hv : v = .admitted
    · simp [hv]
    · simp [hv]
  · rw [h'.running, hrunning]
    unfold admittedOf
    by_cases hv : v = .admitted
    · simp [hv]
    · simp [hv]

theorem scheduleWaiting_passed {fuel : Nat} (hpolicy : c.policy = .fcfs)
    (h : st.scheduleWaiting c env fuel = .ok st') :
    ∃ rounds last, WaitingRounds c env st rounds last ∧ Passed rounds st st' := by
  induction fuel generalizing st with
  | zero =>
    cases h
    exact ⟨[], _, .nil _, .of_rests (.refl _)⟩
  | succ fuel ih =>
    unfold scheduleWaiting at h
    split at h
    · simp only [Result.bind_eq_ok, Prod.exists] at h
      obtain ⟨goOn, st₁, hvisit, h⟩ := h
      obtain ⟨r, ⟨rfl, hrest⟩ | ⟨v, rfl, hturn, hdecides⟩⟩ := visitWaiting_ends hpolicy hvisit
      · cases h
        exact ⟨[], st, .nil st, .of_rests hrest⟩
      · obtain ⟨rounds, last, hrounds, hpassed⟩ := ih h
        exact ⟨(r, v) :: rounds, last, .cons hvisit hdecides hrounds, hpassed.cons hturn⟩
    · cases h
      exact ⟨[], _, .nil _, .of_rests (.refl _)⟩

/-! Without a preemption the loop over the running requests leaves the queues alone. -/

def RestsOrPreempts (st st' : Step) : Prop :=
  ∃ victims, st'.preemptedReqs = st.preemptedReqs ++ victims ∧ (victims = [] → Rests st st')

theorem Rests.restsOrPreempts (h : Rests st st') (hpreempted : st'.preemptedReqs = st.preemptedReqs) :
    RestsOrPreempts st st' :=
  ⟨[], hpreempted.trans (List.append_nil _).symm, fun _ => h⟩

theorem RestsOrPreempts.trans (h : RestsOrPreempts st st₁) (h' : RestsOrPreempts st₁ st') :
    RestsOrPreempts st st' := by
  obtain ⟨victims, heq, hrests⟩ := h
  obtain ⟨victims', heq', hrests'⟩ := h'
  refine ⟨victims ++ victims', by rw [heq', heq, List.append_assoc], fun hnil => ?_⟩
  obtain ⟨hnil₁, hnil₂⟩ := List.append_eq_nil_iff.mp hnil
  exact (hrests hnil₁).trans (hrests' hnil₂)

theorem preempt_restsOrPreempts {victim : Ref} {i j : Nat} (hv : st.takeVictim c i = .ok (victim, j, st₁))
    (hp : st₁.preempt c victim = .ok st') : RestsOrPreempts st st' := by
  have hpreempted := (takeVictim_takes hv).preempted
  obtain ⟨s, -, rfl⟩ := preempt_eq_ok hp
  exact ⟨[victim], congrArg (· ++ [victim]) hpreempted, fun h => absurd h (List.cons_ne_nil _ _)⟩

theorem allocateOrPreempt_restsOrPreempts {n : Int} {fuel j j' : Nat} {blocks : Option (List (List BlockId))}
    (h : allocateOrPreempt c r n fuel j st = .ok (blocks, j', st')) : RestsOrPreempts st st' := by
  induction fuel generalizing j st with
  | zero => cases h
  | succ fuel ih =>
    simp only [allocateOrPreempt, Result.bind_eq_ok, Prod.exists] at h
    obtain ⟨newBlocks, kv, -, h⟩ := h
    have hkv : RestsOrPreempts st (st.withKv kv) := Rests.restsOrPreempts ⟨⟨rfl, rfl, rfl⟩, rfl⟩ rfl
    cases newBlocks with
    | some b =>
      cases h
      exact hkv
    | none =>
      simp only [Result.bind_eq_ok, Prod.exists] at h
      obtain ⟨victim, j₁, st₁, hvictim, st₂, hpreempt, h⟩ := h
      have hpre := hkv.trans (preempt_restsOrPreempts hvictim hpreempt)
      split at h
      · cases h
        exact hpre
      · exact hpre.trans (ih h)

theorem visitRunning_restsOrPreempts {j j' : Nat} {goOn : Bool}
    (h : st.visitRunning c env j r = .ok (goOn, j', st')) : RestsOrPreempts st st' := by
  unfold visitRunning at h
  dsimp only at h
  split at h
  · cases h
    exact (Rests.refl _).restsOrPreempts rfl
  · simp only [Result.bind_eq_ok] at h
    obtain ⟨plan, -, n, -, h⟩ := h
    have hencoder : RestsOrPreempts st (st.withEncoder plan.encoder) :=
      Rests.restsOrPreempts ⟨⟨rfl, rfl, rfl⟩, rfl⟩ rfl
    split at h
    · cases h
      exact hencoder
    · simp only [Result.bind_eq_ok, Prod.exists] at h
      obtain ⟨newBlocks, j₁, st₁, halloc, h⟩ := h
      have hslots := hencoder.trans (allocateOrPreempt_restsOrPreempts halloc)
      cases newBlocks with
      | none =>
        cases h
        exact hslots
      | some blocks =>
        simp only [Result.bind_eq_ok, Result.pure_eq_ok, Prod.mk.injEq] at h
        obtain ⟨st₂, hrun, -, -, rfl⟩ := h
        obtain ⟨e, inputs, budget, rfl⟩ := scheduleEncoder_frame hrun
        exact hslots.trans (Rests.restsOrPreempts ⟨⟨rfl, rfl, rfl⟩, rfl⟩ rfl)

theorem scheduleRunning_restsOrPreempts {fuel j : Nat} (h : st.scheduleRunning c env fuel j = .ok st') :
    RestsOrPreempts st st' := by
  induction fuel generalizing j st with
  | zero =>
    cases h
    exact (Rests.refl _).restsOrPreempts rfl
  | succ fuel ih =>
    unfold scheduleRunning at h
    split at h
    · split at h
      · cases h
        exact (Rests.refl _).restsOrPreempts rfl
      · simp only [Result.bind_eq_ok, Prod.exists] at h
        obtain ⟨goOn, j₁, st₁, hvisit, h⟩ := h
        have hround := visitRunning_restsOrPreempts hvisit
        split at h
        · exact hround.trans (ih h)
        · cases h
          exact hround
    · cases h
      exact (Rests.refl _).restsOrPreempts rfl

theorem makeOutput_preempted {o : SchedulerOutput} {s : Scheduler} (h : st.makeOutput c = .ok (o, s)) :
    SameQueues st.sched s ∧ o.preemptedReqIds.length = st.preemptedReqs.length := by
  have hstate := (makeOutput_eq_ok h).1
  refine ⟨?_, ?_⟩
  · obtain ⟨kv, rfl⟩ := hstate
    exact ⟨rfl, rfl, rfl⟩
  · simp only [makeOutput, Result.bind_eq_ok, Result.pure_eq_ok, Prod.mk.injEq] at h
    obtain ⟨-, -, newReqs, -, cachedReqs, -, rfl, -⟩ := h
    exact List.length_map _

theorem scheduleRequests_passed {s : Scheduler} (hpolicy : c.policy = .fcfs)
    (h : scheduleRequests c env s = .ok st) (hnone : st.preemptedReqs = []) :
    ∃ st₁ st₀ rounds last, (start c s).scheduleRunning c env (s.running.length + 1) 0 = .ok st₁ ∧
      st₁.recordLoras c = .ok st₀ ∧ WaitingRounds c env st₀ rounds last ∧
      ∃ rest, s.inOrder = rounds.map Prod.fst ++ rest ∧ st.sched.inOrder = skippedOf rounds ++ rest ∧
        st.sched.running = s.running ++ admittedOf rounds := by
  simp only [scheduleRequests, Result.bind_eq_ok] at h
  obtain ⟨st₁, hrunning, st₀, hloras, h⟩ := h
  obtain ⟨victims, hvictims, hrests⟩ := scheduleRunning_restsOrPreempts hrunning
  obtain ⟨loras, rfl⟩ := recordLoras_frame hloras
  have hfirst : st₁.preemptedReqs = [] → Rests (start c s) { st₁ with scheduledLoras := loras } := by
    intro hnil
    rw [hvictims] at hnil
    exact (hrests (List.append_eq_nil_iff.mp hnil).2).trans ⟨⟨rfl, rfl, rfl⟩, rfl⟩
  have hstart : (start c s).sched.inOrder = s.inOrder := rfl
  split at h
  · rename_i hwaiting
    simp only [Result.bind_eq_ok, Result.pure_eq_ok] at h
    obtain ⟨st₂, hloop, rfl⟩ := h
    have hrest := hfirst hwaiting.1
    obtain ⟨rounds, last, hrounds, hpassed⟩ := scheduleWaiting_passed hpolicy hloop
    refine ⟨st₁, _, rounds, last, hrunning, hloras, hrounds, st₂.sched.inOrder, ?_, ?_, ?_⟩
    · exact hstart.symm.trans (hrest.queues.inOrder.symm.trans hpassed.inOrder)
    · have haside := hpassed.aside
      rw [hrest.aside] at haside
      have hreversed : st₂.stepSkippedWaiting.reverse = skippedOf rounds := by
        rw [haside]
        show ((skippedOf rounds).reverse ++ []).reverse = skippedOf rounds
        rw [List.append_nil, List.reverse_reverse]
      unfold requeueSkipped Scheduler.inOrder
      rw [hpolicy]
      show (st₂.stepSkippedWaiting.reverse ++ st₂.sched.skippedWaiting) ++ st₂.sched.waiting = _
      rw [hreversed, List.append_assoc]
    · exact hpassed.running.trans (congrArg (· ++ admittedOf rounds) hrest.queues.running)
  · cases h
    have hrest := hfirst hnone
    refine ⟨st₁, _, [], _, hrunning, hloras, .nil _, s.inOrder, rfl, hrest.queues.inOrder, ?_⟩
    exact hrest.queues.running.trans (List.append_nil _).symm

/-- Under FCFS, in a call that preempts nobody, the loop over the waiting requests goes through the
first of them in order. The requests it admits leave the queues for the end of `running`; those it
skips, with their reasons, and those it does not reach stay in order. -/
theorem schedule_keepsOrder {s s' : Scheduler} {o : SchedulerOutput} (hpolicy : c.policy = .fcfs)
    (h : schedule c env s = .ok (o, s')) (hnone : o.preemptedReqIds = []) :
    ∃ st₁ st₀ rounds last, (start c s).scheduleRunning c env (s.running.length + 1) 0 = .ok st₁ ∧
      st₁.recordLoras c = .ok st₀ ∧ WaitingRounds c env st₀ rounds last ∧
      ∃ rest, s.skippedWaiting ++ s.waiting = rounds.map Prod.fst ++ rest ∧
        s'.skippedWaiting ++ s'.waiting = skippedOf rounds ++ rest ∧
        s'.running = s.running ++ admittedOf rounds := by
  simp only [schedule, Result.bind_eq_ok, Prod.exists] at h
  obtain ⟨st, hst, o₁, s₁, hout, h⟩ := h
  obtain ⟨hqueues, hids⟩ := updateAfterSchedule_sameQueues h
  obtain ⟨hqueues₁, hlength⟩ := makeOutput_preempted hout
  have hpreempted : st.preemptedReqs = [] := by
    rw [← hids, hnone] at hlength
    exact List.length_eq_zero_iff.mp hlength.symm
  have hsame := hqueues₁.trans hqueues
  obtain ⟨st₁, st₀, rounds, last, hrunning, hloras, hrounds, rest, hbefore, hafter, hadmitted⟩ :=
    scheduleRequests_passed hpolicy hst hpreempted
  exact ⟨st₁, st₀, rounds, last, hrunning, hloras, hrounds, rest, hbefore, hsame.inOrder.trans hafter,
    hsame.running.trans hadmitted⟩

/-- The grammars of the first two requests are not ready, the third one starts, and the fourth one is not
reached. -/
def grammarFirst (c : SchedulerConfig) : Scheduler :=
  { Scheduler.init c with
    objs := fun r =>
      { requestId := if r = 0 then "a" else if r = 1 then "b" else if r = 2 then "c" else "d"
        status := if r < 2 then .waitingForFsm else .waiting
        useStructuredOutput := r < 2
        promptTokenIds := some [1]
        numPromptTokens := 1
        allTokenIds := [1] }
    nextRef := 4
    requests := (((Dict.empty.set "a" 0).set "b" 1).set "c" 2).set "d" 3
    skippedWaiting := [0, 1]
    waiting := [2, 3] }

def firstComeConfig : SchedulerConfig where
  kv :=
    { numGpuBlocks := 4
      enableCaching := false
      hashBlockSize := 1
      maxModelLen := 8
      useEagle := false
      kvCacheGroups := [.fullAttention ⟨1, 1, 1, .float16, none⟩ 1 none none] }
  policy := .fcfs
  maxNumRunningReqs := 1
  maxNumScheduledTokens := 8

theorem schedule_keepsOrder_grammarFirst :
    ∃ o s', schedule firstComeConfig {} (grammarFirst firstComeConfig) = .ok (o, s') ∧
      s'.skippedWaiting = [0, 1] ∧ s'.waiting = [3] ∧ s'.running = [2] ∧
      ∃ st₁ st₀ rounds last, (start firstComeConfig (grammarFirst firstComeConfig)).scheduleRunning firstComeConfig {}
          ((grammarFirst firstComeConfig).running.length + 1) 0 = .ok st₁ ∧
        st₁.recordLoras firstComeConfig = .ok st₀ ∧ WaitingRounds firstComeConfig {} st₀ rounds last ∧
        ∃ rest, (grammarFirst firstComeConfig).skippedWaiting ++ (grammarFirst firstComeConfig).waiting =
            rounds.map Prod.fst ++ rest ∧
          s'.skippedWaiting ++ s'.waiting = skippedOf rounds ++ rest ∧
          s'.running = (grammarFirst firstComeConfig).running ++ admittedOf rounds := by
  obtain ⟨⟨o, s'⟩, hok, hfacts⟩ := Result.exists_of_holds
    (x := schedule firstComeConfig {} (grammarFirst firstComeConfig))
    (p := fun x => x.1.preemptedReqIds = [] ∧ x.2.skippedWaiting = [0, 1] ∧ x.2.waiting = [3] ∧ x.2.running = [2])
    (by decide +kernel)
  rw [decide_eq_true_eq] at hfacts
  obtain ⟨hnone, hskipped, hwaiting, hrunning⟩ := hfacts
  exact ⟨o, s', hok, hskipped, hwaiting, hrunning, schedule_keepsOrder rfl hok hnone⟩

end Step

end Vllm
