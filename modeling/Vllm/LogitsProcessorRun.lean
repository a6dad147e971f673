import Mathlib.Algebra.Field.Rat
import Vllm.InputBatchRun
import Vllm.LogitsProcessorLaws

namespace Vllm.Worker

open InputBatch

variable {F F32 G E T V : Type}

/-- The model runner with a processor that keeps a dictionary, and the one for `min_p`. -/
structure LogitsRunner (F F32 G E T : Type) where
  runner : ModelRunner F F32 G E
  entries : Dict Nat T
  minP : MinPLogitsProcessor F32

namespace ModelRunner

variable (st : ModelRunner F F32 G E)

def requestAt (i : Nat) : Option (CachedRequestState F G E) :=
  match st.batch.reqIds[i]? with
  | some (some id) => st.requests.get? id
  | _ => none

def stateAt (newState : NewState F T) (i : Nat) : Option T :=
  match st.requestAt i with
  | some r => r.samplingParams.bind fun params => newState params r.promptTokenIds r.outputTokenIds
  | none => none

def minPAt [Zero F] (i : Nat) : F :=
  match (st.requestAt i).bind CachedRequestState.samplingParams with
  | some params => params.minP
  | none => 0

def numMinP [Zero F] [DecidableEq F] : Nat :=
  ((Finset.range st.batch.numReqs).filter fun i => st.minPAt i ≠ 0).card

variable {st}

theorem slotValue_eq (w : Follower F V) (i : Nat) : w.slotValue st.requests st.batch i =
    match (st.requestAt i) with
    | some r => w.requestValue r
    | none => w.zero := by
  unfold Follower.slotValue requestAt
  rcases st.batch.reqIds[i]? with _ | _ | id
  · rfl
  · rfl
  · simp only
    cases st.requests.get? id <;> rfl

theorem slotValue_stateAt (newState : NewState F T) (start : Nat → Option T) :
    (⟨none, newState, start⟩ : Follower F (Option T)).slotValue st.requests st.batch =
      st.stateAt newState := by
  funext i
  rw [slotValue_eq, stateAt]
  split
  · rename_i r _
    unfold Follower.requestValue
    cases r.samplingParams <;> rfl
  · rfl

theorem slotValue_minPAt [Zero F] (g : F → V) (start : Nat → V) :
    (⟨g 0, fun params _ _ => g params.minP, start⟩ : Follower F V).slotValue st.requests st.batch =
      fun i => g (st.minPAt i) := by
  funext i
  rw [slotValue_eq, minPAt]
  cases st.requestAt i with
  | none => rfl
  | some r =>
    simp only [Option.bind_some]
    unfold Follower.requestValue
    cases r.samplingParams <;> rfl

theorem requestAt_of_ge (h : Dense st.batch) {i : Nat} (hi : st.batch.numReqs ≤ i) :
    st.requestAt i = none := by
  rw [← h.length] at hi
  rw [requestAt, List.getElem?_eq_none hi]

end ModelRunner

namespace LogitsRunner

variable [Zero F] [One F] [LT F] [DecidableLT F] [DecidableEq F] [Zero F32] [DecidableEq F32]

def init (c : InputBatchConfig F F32) (blockTable : MultiGroupBlockTable) :
    LogitsRunner F F32 G E T :=
  ⟨ModelRunner.init c blockTable, .empty, .init⟩

def step (c : InputBatchConfig F F32) (newState : NewState F T) (x : LogitsRunner F F32 G E T)
    (s : BatchStep F G E) : Result (LogitsRunner F F32 G E T) := do
  let (u, st) ← x.runner.updateStates c s
  return ⟨st, processDictUpdates newState x.entries u, x.minP.updateState c.toFloat32 u⟩

/-- The dictionary has the state of the request at every index, and nothing else. -/
structure DictFollows (newState : NewState F T) (x : LogitsRunner F F32 G E T) : Prop where
  entry : ∀ i, x.entries.get? i = x.runner.stateAt newState i
  rest : ∀ i, x.runner.batch.numReqs ≤ i → x.entries.get? i = none

/-- The array has the `min_p` of the request at every index, and the counter counts the requests
that have one. -/
structure MinPFollows (c : InputBatchConfig F F32) (x : LogitsRunner F F32 G E T) : Prop where
  entry : ∀ i < x.runner.batch.numReqs, x.minP.minPCpu i = c.toFloat32 (x.runner.minPAt i)
  rest : ∀ i, x.runner.batch.numReqs ≤ i → x.minP.minPCpu i = 0
  count : x.minP.minPCount = x.runner.numMinP

/-- No request of the step brings a `min_p` that is stored as zero without being zero. -/
def Exact (c : InputBatchConfig F F32) (s : BatchStep F G E) : Prop :=
  ∀ a ∈ s.added, ∀ params ∈ a.1.samplingParams, MinPLogitsProcessor.Exact c.toFloat32 params

structure DictInv (c : InputBatchConfig F F32) (newState : NewState F T)
    (x : LogitsRunner F F32 G E T) : Prop where
  settled : x.runner.Settled c
  entries : x.entries.get? = x.runner.stateAt newState

structure MinPInv (c : InputBatchConfig F F32) (x : LogitsRunner F F32 G E T) : Prop where
  settled : x.runner.Settled c
  values : x.minP.minPCpu = fun i => c.toFloat32 (x.runner.minPAt i)
  counts : Counts x.minP.minPCpu x.minP.minPCount
  exact : ∀ i, x.runner.minPAt i = 0 ∨ c.toFloat32 (x.runner.minPAt i) ≠ 0

variable {c : InputBatchConfig F F32} {newState : NewState F T} {x : LogitsRunner F F32 G E T}
variable {s : BatchStep F G E}

theorem DictInv.step (hc : c.isPoolingModel = false) (h : DictInv c newState x)
    (hs : s.Allowed c x.runner) : ∃ x', x.step c newState s = .ok x' ∧ DictInv c newState x' := by
  obtain ⟨u, st, hok, hsettled, hfollow, hu⟩ := ModelRunner.updateStates_spec
    (w := ⟨none, newState, x.entries.get?⟩) (A := fun _ => True) hc h.settled
    (h.entries.trans (ModelRunner.slotValue_stateAt newState _).symm) hs (fun _ _ _ _ => trivial)
  refine ⟨⟨st, processDictUpdates newState x.entries u, x.minP.updateState c.toFloat32 u⟩, ?_,
    hsettled, ?_⟩
  · rw [LogitsRunner.step, hok]
    rfl
  · rw [ModelRunner.slotValue_stateAt] at hfollow
    rw [← hfollow]
    cases u with
    | none => rfl
    | some u => exact get?_processDictUpdates x.entries u (hu u rfl).2

omit [One F] [LT F] [DecidableLT F] [DecidableEq F] [Zero F32] [DecidableEq F32] in
theorem DictInv.follows (h : DictInv c newState x) : DictFollows newState x := by
  refine ⟨fun i => congrFun h.entries i, fun i hi => ?_⟩
  rw [congrFun h.entries i, ModelRunner.stateAt, ModelRunner.requestAt_of_ge h.settled.dense hi]

theorem MinPInv.step (hc : c.isPoolingModel = false) (h0 : c.toFloat32 0 = 0) (h : MinPInv c x)
    (hs : s.Allowed c x.runner) (hexact : Exact c s) :
    ∃ x', x.step c newState s = .ok x' ∧ MinPInv c x' := by
  obtain ⟨u, st, hok, hsettled, hfollow, hu⟩ := ModelRunner.updateStates_spec
    (w := ⟨c.toFloat32 0, fun params _ _ => c.toFloat32 params.minP, x.minP.minPCpu⟩) hc h.settled
    (h.values.trans (ModelRunner.slotValue_minPAt c.toFloat32 _).symm) hs hexact
  obtain ⟨u', st', hok', -, hfollow', -⟩ := ModelRunner.updateStates_spec
    (w := ⟨0, fun params _ _ => params.minP, x.runner.minPAt⟩) hc h.settled
    (ModelRunner.slotValue_minPAt id _).symm hs hexact
  rw [hok] at hok'
  cases hok'
  rw [ModelRunner.slotValue_minPAt] at hfollow
  have hfollow' := hfollow'.trans (ModelRunner.slotValue_minPAt id _)
  rw [h0] at hfollow
  refine ⟨⟨st, processDictUpdates newState x.entries u, x.minP.updateState c.toFloat32 u⟩, ?_,
    hsettled, ?_, ?_, ?_⟩
  · rw [LogitsRunner.step, hok]
    rfl
  · rw [← hfollow]
    cases u with
    | none => rfl
    | some u => exact (MinPLogitsProcessor.updateState_spec h0 h.counts u (hu u rfl).2
        (hu u rfl).1).1
  · cases u with
    | none => exact h.counts
    | some u => exact (MinPLogitsProcessor.updateState_spec h0 h.counts u (hu u rfl).2
        (hu u rfl).1).2
  · have hall : ∀ i, (⟨0, fun params _ _ => params.minP, x.runner.minPAt⟩ :
        Follower F F).follow u i = 0 ∨ c.toFloat32 ((⟨0, fun params _ _ => params.minP,
          x.runner.minPAt⟩ : Follower F F).follow u i) ≠ 0 := by
      cases u with
      | none => exact h.exact
      | some u =>
        exact BatchReplay.replay_all (P := fun v => v = 0 ∨ c.toFloat32 v ≠ 0) (.inl rfl)
          (hu u rfl).1 h.exact
    rw [hfollow'] at hall
    exact hall

omit [One F] [LT F] [DecidableLT F] [DecidableEq F32] in
theorem MinPInv.follows (h0 : c.toFloat32 0 = 0) (h : MinPInv c x) : MinPFollows c x := by
  have hrest : ∀ i, x.runner.batch.numReqs ≤ i → x.runner.minPAt i = 0 := by
    intro i hi
    rw [ModelRunner.minPAt, ModelRunner.requestAt_of_ge h.settled.dense hi]
    rfl
  have hvalue := fun i => congrFun h.values i
  refine ⟨fun i _ => hvalue i, fun i hi => ?_, h.counts.card_eq fun i => ?_⟩
  · rw [hvalue, hrest i hi, h0]
  · rw [Finset.mem_filter, Finset.mem_range, hvalue]
    constructor
    · exact fun hi => (h.exact i).resolve_left hi.2
    · intro hi
      have hne : x.runner.minPAt i ≠ 0 := fun hz => hi (by rw [hz, h0])
      exact ⟨Nat.not_le.mp fun hle => hne (hrest i hle), hne⟩

omit [One F] [LT F] [DecidableLT F] [DecidableEq F] [DecidableEq F32] in
theorem DictInv.init (blockTable : MultiGroupBlockTable) :
    DictInv c newState (LogitsRunner.init c blockTable : LogitsRunner F F32 G E T) :=
  ⟨.init c blockTable, rfl⟩

omit [One F] [LT F] [DecidableLT F] [DecidableEq F] [DecidableEq F32] in
theorem MinPInv.init (h0 : c.toFloat32 0 = 0) (blockTable : MultiGroupBlockTable) :
    MinPInv c (LogitsRunner.init c blockTable : LogitsRunner F F32 G E T) :=
  ⟨.init c blockTable, funext fun _ => h0.symm, .zero, fun _ => .inl rfl⟩

/-- Along every run of allowed steps the dictionary follows the batch, and so do the array and its
counter if no `min_p` is rounded to zero. -/
theorem follows_of_allowed (hc : c.isPoolingModel = false) (h0 : c.toFloat32 0 = 0)
    (blockTable : MultiGroupBlockTable) (newState : NewState F T) (ss : List (BatchStep F G E))
    (hss : Guarded (LogitsRunner.step c newState) (fun x s => s.Allowed c x.runner)
      (LogitsRunner.init c blockTable) ss) :
    (∃ x, runSteps (LogitsRunner.step c newState) (LogitsRunner.init c blockTable) ss = .ok x) ∧
      Throughout (LogitsRunner.step c newState) (DictFollows newState)
        (LogitsRunner.init c blockTable) ss ∧
      ((∀ s ∈ ss, Exact c s) → Throughout (LogitsRunner.step c newState) (MinPFollows c)
        (LogitsRunner.init c blockTable) ss) := by
  refine ⟨?_, ?_, fun hexact => ?_⟩
  · obtain ⟨x, hrun, -⟩ := run_ok_of_inv (fun _ _ h hs => h.step hc hs) (DictInv.init _) hss
    exact ⟨x, hrun⟩
  · refine throughout_of_inv (fun x s x' h hs hok => ?_) (fun x h => h.follows) (DictInv.init _) hss
    obtain ⟨x'', hok', h'⟩ := h.step hc hs
    rw [hok] at hok'
    cases hok'
    exact h'
  · refine throughout_of_inv (fun x s x' h hs hok => ?_) (fun x h => h.follows h0)
      (MinPInv.init h0 _) (hss.and_mem hexact)
    obtain ⟨x'', hok', h'⟩ := h.step hc h0 hs.2 hs.1
    rw [hok] at hok'
    cases hok'
    exact h'

section Sample

/-- Rationals for the floats; what is too small for a `float32` is stored as zero. -/
def roundingConfig : InputBatchConfig Rat Rat where
  maxNumReqs := 2
  maxModelLen := 8
  vocabSize := 16
  toFloat32 := fun q => if q.num.natAbs * 2 ^ 150 < q.den then 0 else q

theorem length_minPRequest :
    lengthFromPromptTokenIdsOrEmbeds (some [1, 2]) (none : Option (List Unit)) = .ok 2 := rfl

def minPRequest (id : ReqId) (minP : Rat) : CachedRequestState Rat Nat Unit where
  reqId := id
  promptTokenIds := some [1, 2]
  samplingParams := some {
    samplingType := .random
    temperature := 1, topP := 1, topK := 0, minP
    frequencyPenalty := 0, presencePenalty := 0, repetitionPenalty := 1 }
  blockIds := [[5]]
  numComputedTokens := 0
  numPromptTokens := 2
  numPromptTokens_eq := length_minPRequest
  loraIntId_pos := loraIntId_pos_of_none

def quarter : Rat := ⟨1, 4, by decide, by decide⟩

def minPState : NewState Rat Rat := fun params _ _ =>
  if params.minP = 0 then none else some params.minP

def minPSteps (minP : Rat) : List (BatchStep Rat Nat Unit) :=
  [⟨[], [], [(minPRequest "a" ⟨1, 2, by decide, by decide⟩, []), (minPRequest "b" 0, [])], []⟩,
    ⟨["a"], [], [(minPRequest "c" minP, [])], [(0, 1)]⟩,
    ⟨["b", "c"], [], [], []⟩]

theorem follows_of_allowed_sample :
    Guarded (LogitsRunner.step roundingConfig minPState)
      (fun x s => s.Allowed roundingConfig x.runner)
      (LogitsRunner.init roundingConfig [sampleTable]) (minPSteps quarter) ∧
    (∀ s ∈ minPSteps quarter, Exact roundingConfig s) ∧
    Throughout (LogitsRunner.step roundingConfig minPState) (MinPFollows roundingConfig)
      (LogitsRunner.init roundingConfig [sampleTable]) (minPSteps quarter) := by
  have hguard : Guarded (LogitsRunner.step roundingConfig minPState)
      (fun x s => s.Allowed roundingConfig x.runner)
      (LogitsRunner.init roundingConfig [sampleTable]) (minPSteps quarter) := by
    decide +kernel
  have hexact : ∀ s ∈ minPSteps quarter, Exact roundingConfig s := by
    unfold Exact MinPLogitsProcessor.Exact
    decide +kernel
  exact ⟨hguard, hexact, (follows_of_allowed rfl (by decide +kernel) _ _ _ hguard).2.2 hexact⟩

def tiny : Rat := ⟨1, 10 ^ 50, by decide, by decide⟩

/-- A `min_p` of `10 ^ -50` that takes the index of a larger one is stored as zero, but the counter
stays; nothing lowers it when the request leaves. -/
theorem not_minPFollows_of_rounding :
    Guarded (LogitsRunner.step roundingConfig minPState)
      (fun x s => s.Allowed roundingConfig x.runner)
      (LogitsRunner.init roundingConfig [sampleTable]) (minPSteps tiny) ∧
    ¬ Throughout (LogitsRunner.step roundingConfig minPState) (MinPFollows roundingConfig)
      (LogitsRunner.init roundingConfig [sampleTable]) (minPSteps tiny) := by
  refine ⟨by decide +kernel, fun hrun => ?_⟩
  rw [minPSteps] at hrun
  have hlast := (((hrun.2 _ rfl).2 _ rfl).2 _ rfl).count
  exact absurd hlast (by decide +kernel)

end Sample

end LogitsRunner

end Vllm.Worker
