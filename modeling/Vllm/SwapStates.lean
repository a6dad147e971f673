import Vllm.BatchShape

namespace Vllm.Worker

structure Place (E : Type) where
  reqId : Option (Option ReqId)
  outputTokenIds : Option (Option (List Token))
  specTokenIds : Option (List Token)
  tokens : Nat → Token
  isTokens : Nat → Bool
  embeds : Option (List E)
  numTokensNoSpec : Nat
  numPromptTokens : Nat
  numComputedTokens : Nat
  tables : List TableRow
  loraId : Nat
  needsTokenIds : Bool

structure SamplingPlace (F32 G : Type) where
  temperature : F32
  topP : F32
  topK : Int
  frequencyPenalty : F32
  presencePenalty : F32
  repetitionPenalty : F32
  numAcceptedTokens : Nat
  generator : Option G
  badWords : Option (List (List Token))
  allowedMask : Option (Nat → Bool)

structure ByRequest where
  greedyReqs : Finset ReqId
  randomReqs : Finset ReqId
  topPReqs : Finset ReqId
  topKReqs : Finset ReqId
  frequencyPenaltiesReqs : Finset ReqId
  presencePenaltiesReqs : Finset ReqId
  repetitionPenaltiesReqs : Finset ReqId
  loraIdToRequestIds : Dict Nat (Finset ReqId)
  loraIdToLoraRequest : Dict Nat LoRARequest
  numLogprobs : Dict ReqId Int
  hasAllowedTokenIds : Finset ReqId
  poolingParams : Dict ReqId PoolingParams
  gpuTables : List (Nat → Nat → Int)

namespace InputBatch

variable {F F32 G E : Type} {c : InputBatchConfig F F32} {b b' : InputBatch F F32 G E}
variable {i i1 i2 j : Nat} {id1 id2 : ReqId}

def place (b : InputBatch F F32 G E) (i : Nat) : Place E where
  reqId := b.reqIds[i]?
  outputTokenIds := b.reqOutputTokenIds[i]?
  specTokenIds := b.specTokenIds[i]?
  tokens := b.tokenIdsCpu i
  isTokens := b.isTokenIds i
  embeds := b.reqPromptEmbeds.get? i
  numTokensNoSpec := b.numTokensNoSpec i
  numPromptTokens := b.numPromptTokens i
  numComputedTokens := b.numComputedTokensCpu i
  tables := MultiGroupBlockTable.rows b.blockTable i
  loraId := b.requestLoraMapping i
  needsTokenIds := b.logitsProcessingNeedsTokenIds i

def samplingPlace (b : InputBatch F F32 G E) (i : Nat) : SamplingPlace F32 G where
  temperature := b.temperatureCpu i
  topP := b.topPCpu i
  topK := b.topKCpu i
  frequencyPenalty := b.frequencyPenaltiesCpu i
  presencePenalty := b.presencePenaltiesCpu i
  repetitionPenalty := b.repetitionPenaltiesCpu i
  numAcceptedTokens := b.numAcceptedTokensCpu i
  generator := b.generators.get? i
  badWords := b.badWordsTokenIds.get? i
  allowedMask := b.allowedTokenIdsMaskCpuTensor.map fun mask => mask i

def byRequest (b : InputBatch F F32 G E) : ByRequest where
  greedyReqs := b.greedyReqs
  randomReqs := b.randomReqs
  topPReqs := b.topPReqs
  topKReqs := b.topKReqs
  frequencyPenaltiesReqs := b.frequencyPenaltiesReqs
  presencePenaltiesReqs := b.presencePenaltiesReqs
  repetitionPenaltiesReqs := b.repetitionPenaltiesReqs
  loraIdToRequestIds := b.loraIdToRequestIds
  loraIdToLoraRequest := b.loraIdToLoraRequest
  numLogprobs := b.numLogprobs
  hasAllowedTokenIds := b.hasAllowedTokenIds
  poolingParams := b.poolingParams
  gpuTables := b.blockTable.map BlockTable.gpu

/-- Of two states of a batch, one has the data of the indices `i1` and `i2` exchanged and all
else the same. The logits processors of a sampling model are told. -/
structure Exchanged (c : InputBatchConfig F F32) (i1 i2 : Nat) (b b' : InputBatch F F32 G E) :
    Prop where
  places : ∀ j, b'.place j = b.place (Equiv.swap i1 i2 j)
  sampling : ∀ j, b'.samplingPlace j =
    if c.isPoolingModel then b.samplingPlace j else b.samplingPlace (Equiv.swap i1 i2 j)
  index : ∀ id, b'.reqIdToIndex.get? id = (b.reqIdToIndex.get? id).map (Equiv.swap i1 i2)
  byRequest : b'.byRequest = b.byRequest
  builder : b'.batchUpdateBuilder = { b.batchUpdateBuilder with
    moved := b.batchUpdateBuilder.moved ++ if c.isPoolingModel then [] else [(i1, i2, .swap)] }

structure SameData (b b' : InputBatch F F32 G E) : Prop where
  places : b'.place = b.place
  sampling : b'.samplingPlace = b.samplingPlace
  index : ∀ id, b'.reqIdToIndex.get? id = b.reqIdToIndex.get? id
  byRequest : b'.byRequest = b.byRequest

/-- The swap succeeds and is an exact exchange, and a second one restores the state. -/
def SwapsExactly (c : InputBatchConfig F F32) (b : InputBatch F F32 G E) (i1 i2 : Nat) : Prop :=
  ∃ b', b.swapStates c i1 i2 = .ok b' ∧ Exchanged c i1 i2 b b' ∧
    ∃ b'', b'.swapStates c i1 i2 = .ok b'' ∧ SameData b b''

def SameMask (b : InputBatch F F32 G E) (i1 i2 : Nat) : Prop :=
  ∀ mask ∈ b.allowedTokenIdsMaskCpuTensor, mask i1 = mask i2

/-- Where a swap is an exact exchange. -/
structure Swappable (c : InputBatchConfig F F32) (b : InputBatch F F32 G E) (i1 i2 : Nat) :
    Prop where
  flags : b.logitsProcessingNeedsTokenIds i1 = b.logitsProcessingNeedsTokenIds i2
  masks : c.isPoolingModel = false → b.SameMask i1 i2

section Swap

def swapped (c : InputBatchConfig F F32) (b : InputBatch F F32 G E) (i1 i2 : Nat)
    (id1 id2 : ReqId) : InputBatch F F32 G E :=
  let b := b.swapCommon i1 i2 ((b.reqIdToIndex.set id1 i2).set id2 i1)
  if c.isPoolingModel then b else b.swapSampling i1 i2

theorem swapStates_eq (h : b.Shaped) (h1 : b.reqIds[i1]? = some (some id1))
    (h2 : b.reqIds[i2]? = some (some id2)) :
    b.swapStates c i1 i2 = .ok (b.swapped c i1 i2 id1 id2) := by
  have hx1 := (h.index id1 i1).mpr h1
  have hx2 := (h.index id2 i2).mpr h2
  unfold swapStates
  simp only [Result.getItem, h1, h2, getIndex, hx1, hx2, Result.ok_bind]
  rfl

theorem place_swapped (h : b.Shaped) (h1 : b.reqIds[i1]? = some (some id1))
    (h2 : b.reqIds[i2]? = some (some id2)) (j : Nat) :
    (b.swapped c i1 i2 id1 id2).place j = { b.place (Equiv.swap i1 i2 j) with
      needsTokenIds := b.logitsProcessingNeedsTokenIds j } := by
  have hlt1 := (List.getElem?_eq_some_iff.mp h1).1
  have hlt2 := (List.getElem?_eq_some_iff.mp h2).1
  have houtputs := h.lists.outputs
  have hspecs := h.lists.specs
  have hids := getElem?_swapItems hlt1 hlt2 j
  have houtputs' := getElem?_swapItems (show i1 < b.reqOutputTokenIds.length by omega)
    (show i2 < b.reqOutputTokenIds.length by omega) j
  have hspecs' := getElem?_swapItems (show i1 < b.specTokenIds.length by omega)
    (show i2 < b.specTokenIds.length by omega) j
  have hcommon : (b.swapCommon i1 i2 ((b.reqIdToIndex.set id1 i2).set id2 i1)).place j =
      { b.place (Equiv.swap i1 i2 j) with
        needsTokenIds := b.logitsProcessingNeedsTokenIds j } := by
    simp only [place, swapCommon, Function.comp_apply, get?_swapDictValues,
      MultiGroupBlockTable.swapRow_rows, hids, houtputs', hspecs']
  unfold swapped
  split <;> exact hcommon

theorem samplingPlace_swapped (hc : c.isPoolingModel = false) (j : Nat) :
    (b.swapped c i1 i2 id1 id2).samplingPlace j = { b.samplingPlace (Equiv.swap i1 i2 j) with
      allowedMask := b.allowedTokenIdsMaskCpuTensor.map fun mask =>
        if j = i1 then mask i2 else mask j } := by
  have hmask : ∀ mask : Nat → Nat → Bool, Function.update (Function.update mask i1 (mask i2)) i2
      (Function.update mask i1 (mask i2) i1) j = if j = i1 then mask i2 else mask j := by
    intro mask
    by_cases h2 : j = i2
    · subst h2
      simp
    · simp [Function.update_apply, h2]
  simp only [swapped, hc, Bool.false_eq_true, if_false, samplingPlace, swapSampling, swapCommon,
    get?_swapDictValues, Option.map_map, Function.comp_def, hmask]

theorem index_swapped (h : b.Shaped) (h1 : b.reqIds[i1]? = some (some id1))
    (h2 : b.reqIds[i2]? = some (some id2)) (id : ReqId) :
    (b.swapped c i1 i2 id1 id2).reqIdToIndex.get? id =
      (b.reqIdToIndex.get? id).map (Equiv.swap i1 i2) := by
  have hindex : (b.swapped c i1 i2 id1 id2).reqIdToIndex =
      (b.reqIdToIndex.set id1 i2).set id2 i1 := by
    unfold swapped
    split <;> rfl
  rw [hindex, Dict.get?_set, Dict.get?_set]
  split
  · rename_i hid
    subst hid
    rw [(h.index id2 i2).mpr h2, Option.map_some, Equiv.swap_apply_right]
  · split
    · rename_i hid
      subst hid
      rw [(h.index id1 i1).mpr h1, Option.map_some, Equiv.swap_apply_left]
    · rename_i hid2 hid1
      cases hid : b.reqIdToIndex.get? id with
      | none => rfl
      | some k =>
        have hk := (h.index id k).mp hid
        have hne1 : k ≠ i1 := by
          rintro rfl
          rw [h1] at hk
          exact hid1 (Option.some.inj (Option.some.inj hk))
        have hne2 : k ≠ i2 := by
          rintro rfl
          rw [h2] at hk
          exact hid2 (Option.some.inj (Option.some.inj hk))
        rw [Option.map_some, Equiv.swap_apply_of_ne_of_ne hne1 hne2]

theorem byRequest_swapped : (b.swapped c i1 i2 id1 id2).byRequest = b.byRequest := by
  have hgpu : (b.blockTable.swapRow i1 i2).map BlockTable.gpu = b.blockTable.map BlockTable.gpu := by
    rw [MultiGroupBlockTable.swapRow, List.map_map]
    rfl
  unfold swapped
  split <;> simp only [byRequest, swapSampling, swapCommon, hgpu]

theorem builder_swapped (b : InputBatch F F32 G E) (i1 i2 : Nat) (id1 id2 : ReqId) :
    (b.swapped c i1 i2 id1 id2).batchUpdateBuilder =
    { b.batchUpdateBuilder with
      moved := b.batchUpdateBuilder.moved ++
        if c.isPoolingModel then [] else [(i1, i2, .swap)] } := by
  unfold swapped
  split
  · rw [List.append_nil]
    rfl
  · rfl

theorem Shaped.swapped (h : b.Shaped) (h1 : b.reqIds[i1]? = some (some id1))
    (h2 : b.reqIds[i2]? = some (some id2)) : (b.swapped c i1 i2 id1 id2).Shaped := by
  have hlt1 := (List.getElem?_eq_some_iff.mp h1).1
  have hlt2 := (List.getElem?_eq_some_iff.mp h2).1
  constructor
  case index =>
    intro id i
    have hslot := congrArg Place.reqId (place_swapped (c := c) h h1 h2 i)
    change (b.swapped c i1 i2 id1 id2).reqIds[i]? = b.reqIds[Equiv.swap i1 i2 i]? at hslot
    rw [index_swapped h h1 h2, hslot, ← h.index, Option.map_eq_some_iff]
    constructor
    · rintro ⟨k, hk, rfl⟩
      rw [Equiv.swap_apply_self]
      exact hk
    · intro hk
      exact ⟨_, hk, Equiv.swap_apply_self i1 i2 i⟩
  case lists =>
    have hcommon : (b.swapCommon i1 i2 ((b.reqIdToIndex.set id1 i2).set id2 i1)).Lists := by
      constructor
      · simp only [swapCommon, length_swapItems]
        exact h.lists.outputs
      · simp only [swapCommon, length_swapItems]
        exact h.lists.specs
    unfold InputBatch.swapped
    split
    · exact hcommon
    · exact ⟨hcommon.outputs, hcommon.specs⟩

theorem exchanged_swapped (h : b.Shaped) (h1 : b.reqIds[i1]? = some (some id1))
    (h2 : b.reqIds[i2]? = some (some id2)) :
    Exchanged c i1 i2 b (b.swapped c i1 i2 id1 id2) ↔ b.Swappable c i1 i2 := by
  constructor
  · intro hex
    constructor
    case flags =>
      have hplace := congrArg Place.needsTokenIds (hex.places i1)
      rw [place_swapped h h1 h2, Equiv.swap_apply_left] at hplace
      exact hplace
    case masks =>
      intro hc mask hmask
      have hrow := congrArg SamplingPlace.allowedMask (hex.sampling i2)
      rw [samplingPlace_swapped hc, hc, Equiv.swap_apply_right] at hrow
      simp only [samplingPlace, Option.mem_def.mp hmask, Option.map_some, Bool.false_eq_true,
        if_false] at hrow
      have hrow := Option.some.inj hrow
      by_cases heq : i2 = i1
      · rw [heq]
      · rw [if_neg heq] at hrow
        exact hrow.symm
  · intro hsw
    constructor
    case places =>
      intro j
      rw [place_swapped h h1 h2, ← Equiv.apply_swap_eq_self hsw.flags j]
      rfl
    case sampling =>
      intro j
      by_cases hc : c.isPoolingModel = true
      · rw [if_pos hc, swapped, if_pos hc]
        rfl
      · rw [if_neg hc, samplingPlace_swapped (Bool.eq_false_iff.mpr hc)]
        have hrows : (b.allowedTokenIdsMaskCpuTensor.map fun mask =>
            if j = i1 then mask i2 else mask j) =
            b.allowedTokenIdsMaskCpuTensor.map fun mask => mask (Equiv.swap i1 i2 j) := by
          refine Option.map_congr fun mask hmask => ?_
          have heq := hsw.masks (Bool.eq_false_iff.mpr hc) mask hmask
          rw [Equiv.apply_swap_eq_self heq]
          split
          · rename_i hj
            rw [hj, heq]
          · rfl
        rw [hrows]
        rfl
    case index => exact index_swapped h h1 h2
    case byRequest => exact byRequest_swapped
    case builder => exact builder_swapped _ _ _ _ _

theorem Exchanged.swappable (h : Exchanged c i1 i2 b b') (hs : b.Swappable c i1 i2) :
    b'.Swappable c i1 i2 := by
  constructor
  case flags =>
    have h1 := congrArg Place.needsTokenIds (h.places i1)
    have h2 := congrArg Place.needsTokenIds (h.places i2)
    rw [Equiv.swap_apply_left] at h1
    rw [Equiv.swap_apply_right] at h2
    exact h1.trans (hs.flags.symm.trans h2.symm)
  case masks =>
    intro hc mask' hmask'
    have h1 := congrArg SamplingPlace.allowedMask (h.sampling i1)
    have h2 := congrArg SamplingPlace.allowedMask (h.sampling i2)
    rw [hc, Equiv.swap_apply_left] at h1
    rw [hc, Equiv.swap_apply_right] at h2
    simp only [samplingPlace, Option.mem_def.mp hmask', Option.map_some, Bool.false_eq_true,
      if_false] at h1 h2
    obtain ⟨mask, hmask, hrow2⟩ := Option.map_eq_some_iff.mp h1.symm
    rw [hmask, Option.map_some] at h2
    rw [← hrow2, Option.some.inj h2]
    exact (hs.masks hc mask hmask).symm

theorem Exchanged.restored {b'' : InputBatch F F32 G E} (h : Exchanged c i1 i2 b b')
    (h' : Exchanged c i1 i2 b' b'') : SameData b b'' := by
  constructor
  case places =>
    funext j
    rw [h'.places, h.places, Equiv.swap_apply_self]
  case sampling =>
    funext j
    rw [h'.sampling, h.sampling, h.sampling, Equiv.swap_apply_self]
    split <;> rfl
  case index =>
    intro id
    rw [h'.index, h.index, Option.map_map]
    simp [Function.comp_def]
  case byRequest => exact h'.byRequest.trans h.byRequest

/-- A swap of two requests is an exact exchange, undone by a second one, if and only if their
flags agree and, in a sampling model, their rows of the mask. -/
theorem swapsExactly_iff (h : b.Shaped) (h1 : b.Occupied i1) (h2 : b.Occupied i2) :
    b.SwapsExactly c i1 i2 ↔ b.Swappable c i1 i2 := by
  obtain ⟨id1, h1⟩ := h1
  obtain ⟨id2, h2⟩ := h2
  have hok := swapStates_eq (c := c) h h1 h2
  constructor
  · rintro ⟨b', hb', hex, -⟩
    rw [hok] at hb'
    cases hb'
    exact (exchanged_swapped h h1 h2).mp hex
  · intro hsw
    have hex := (exchanged_swapped h h1 h2).mpr hsw
    have h' := h.swapped (c := c) h1 h2
    have hslot := fun j => congrArg Place.reqId (hex.places j)
    have h1' : (b.swapped c i1 i2 id1 id2).reqIds[i1]? = some (some id2) := by
      have := hslot i1
      rw [Equiv.swap_apply_left] at this
      exact this.trans h2
    have h2' : (b.swapped c i1 i2 id1 id2).reqIds[i2]? = some (some id1) := by
      have := hslot i2
      rw [Equiv.swap_apply_right] at this
      exact this.trans h1
    exact ⟨_, hok, hex, _, swapStates_eq h' h1' h2',
      hex.restored ((exchanged_swapped h' h1' h2').mpr (hex.swappable hsw))⟩

end Swap

section Sample

def restrictedRequest (id : ReqId) (allowed : List Nat) : CachedRequestState Int Nat Unit where
  reqId := id
  promptTokenIds := some [1, 2]
  samplingParams := some {
    samplingType := .greedy
    temperature := 0, topP := 1, topK := 0, minP := 0
    frequencyPenalty := 0, presencePenalty := 0, repetitionPenalty := 1
    allowedTokenIds := allowed }
  blockIds := [[5]]
  numComputedTokens := 0
  numPromptTokens := 2
  numPromptTokens_eq := rfl
  loraIntId_pos := loraIntId_pos_of_none

def restrictedBatch (allowed allowed' : List Nat) : Result (InputBatch Int Int Nat Unit) := do
  let (_, b) ← (init sampleConfig [sampleTable]).addRequest sampleConfig
    (restrictedRequest "a" allowed)
  let (_, b) ← b.addRequest sampleConfig (restrictedRequest "b" allowed')
  return b

theorem shaped_restrictedBatch {allowed allowed' : List Nat} {b : InputBatch Int Int Nat Unit}
    (h : restrictedBatch allowed allowed' = .ok b) : b.Shaped := by
  unfold restrictedBatch at h
  simp only [Result.bind_eq_ok, Result.pure_eq_ok] at h
  obtain ⟨⟨i, b₁⟩, h₁, ⟨j, b₂⟩, h₂, rfl⟩ := h
  obtain ⟨hs, hg⟩ : (init sampleConfig [sampleTable] : InputBatch Int Int Nat Unit).Shaped ∧
      (init sampleConfig [sampleTable] : InputBatch Int Int Nat Unit).Gaps := init_shaped _ _
  obtain ⟨hi, -, he⟩ := addRequest_entered h₁
  have hs₁ := hs.entered rfl (hg.next hs hi.symm).1 he
  have hg₁ := hg.entered hs hi.symm he
  obtain ⟨hj, -, he'⟩ := addRequest_entered h₂
  refine hs₁.entered ?_ (hg₁.next hs₁ hj.symm).1 he'
  rw [he.index, Dict.get?_set]
  rfl

theorem swapsExactly_iff_unrestricted : ∃ b, restrictedBatch [] [] = .ok b ∧
    b.SwapsExactly sampleConfig 0 1 := by
  obtain ⟨b, hok, hb⟩ := Result.exists_of_holds (x := restrictedBatch [] [])
    (p := fun b => decide (b.Occupied 0) && decide (b.Occupied 1) &&
      (b.logitsProcessingNeedsTokenIds 0 == b.logitsProcessingNeedsTokenIds 1) &&
      b.allowedTokenIdsMaskCpuTensor.isNone) (by decide +kernel)
  simp only [Bool.and_eq_true, decide_eq_true_eq, beq_iff_eq, Option.isNone_iff_eq_none] at hb
  obtain ⟨⟨⟨h0, h1⟩, hflags⟩, hmask⟩ := hb
  refine ⟨b, hok, (swapsExactly_iff (shaped_restrictedBatch hok) h0 h1).mpr ⟨hflags, ?_⟩⟩
  intro _ mask hm
  rw [hmask] at hm
  cases hm

/-- Both rows of the mask become the one of the second request. -/
theorem not_swapsExactly_restricted : ∃ b, restrictedBatch [3] [4] = .ok b ∧
    b.Occupied 0 ∧ b.Occupied 1 ∧ ¬ b.SwapsExactly sampleConfig 0 1 := by
  let allows (b : InputBatch Int Int Nat Unit) (i t : Nat) : Option Bool :=
    b.allowedTokenIdsMaskCpuTensor.map fun mask => mask i t
  obtain ⟨b, hok, hb⟩ := Result.exists_of_holds (x := restrictedBatch [3] [4])
    (p := fun b => decide (b.Occupied 0) && decide (b.Occupied 1) &&
      (b.swapStates sampleConfig 0 1).holds fun b' => allows b' 1 3 != allows b 0 3)
    (by decide +kernel)
  simp only [Bool.and_eq_true, decide_eq_true_eq] at hb
  obtain ⟨⟨h0, h1⟩, hb⟩ := hb
  refine ⟨b, hok, h0, h1, ?_⟩
  rintro ⟨b', hswap, hex, -⟩
  rw [hswap] at hb
  have hrow := congrArg SamplingPlace.allowedMask (hex.sampling 1)
  change b'.allowedTokenIdsMaskCpuTensor.map (fun mask => mask 1) =
    b.allowedTokenIdsMaskCpuTensor.map fun mask => mask 0 at hrow
  have hrow := congrArg (Option.map fun row : Nat → Bool => row 3) hrow
  rw [Option.map_map, Option.map_map] at hrow
  exact absurd hrow (bne_iff_ne.mp hb)

end Sample

end InputBatch

end Vllm.Worker
