import Vllm.ReorderBatch

namespace Vllm.Worker

variable {F F32 G E : Type}

structure CommonAttentionMetadata where
  queryStartLocCpu : List Int
  seqLensCpu : List Int
  numReqs : Nat
  numActualTokens : Int
  maxQueryLen : Int

structure BatchSplit where
  numDecodes : Int
  numExtends : Int
  numPrefills : Int
  numDecodeTokens : Int
  numExtendTokens : Int
  numPrefillTokens : Int
  deriving DecidableEq

/-- `mask.int().argmax(dim=-1)`: the first index that is set, or the first one. -/
def argmax (mask : List Bool) : Result Nat :=
  if mask = [] then .error .indexError
  else if mask.any id then .ok (mask.findIdx id)
  else .ok 0

namespace CommonAttentionMetadata

variable (m : CommonAttentionMetadata)

def queryLens : List Int :=
  List.zipWith (· - ·) m.queryStartLocCpu.tail m.queryStartLocCpu.dropLast

def splitDecodesPrefillsAndExtends (decodeThreshold : Int) : Result BatchSplit := do
  if m.maxQueryLen ≤ decodeThreshold then return ⟨m.numReqs, 0, 0, m.numActualTokens, 0, 0⟩
  let isPrefillOrExtend := m.queryLens.map fun len => decide (decodeThreshold < len)
  let isPrefill := List.zipWith (· && ·)
    (List.zipWith (fun seqLen queryLen => decide (seqLen = queryLen)) m.seqLensCpu m.queryLens)
    isPrefillOrExtend
  let firstExtend ← argmax isPrefillOrExtend
  let firstPrefill ← argmax isPrefill
  let numDecodes : Int := firstExtend
  let numDecodeTokens ← Result.getItem m.queryStartLocCpu firstExtend
  if !isPrefillOrExtend.any id then return ⟨numDecodes, 0, 0, numDecodeTokens, 0, 0⟩
  let numPrefillsOrExtends := m.numReqs - numDecodes
  let numPrefillOrExtendTokens := m.numActualTokens - numDecodeTokens
  if !isPrefill.any id then
    return ⟨numDecodes, numPrefillsOrExtends, 0, numDecodeTokens, numPrefillOrExtendTokens, 0⟩
  let numExtends := firstPrefill - numDecodes
  let numPrefills := m.numReqs - firstPrefill
  let numPrefillTokens := m.numActualTokens - (← Result.getItem m.queryStartLocCpu firstPrefill)
  let numExtendTokens := numPrefillOrExtendTokens - numPrefillTokens
  return ⟨numDecodes, numExtends, numPrefills, numDecodeTokens, numExtendTokens, numPrefillTokens⟩

def splitDecodesAndPrefills (decodeThreshold : Int) (requireUniform : Bool) :
    Result (Int × Int × Int × Int) := do
  if m.maxQueryLen ≤ decodeThreshold ∧ (!requireUniform ∨ decodeThreshold ≤ 1) then
    return (m.numReqs, 0, m.numActualTokens, 0)
  let firstLen ← Result.getItem m.queryLens 0
  if firstLen > decodeThreshold then return (0, m.numReqs, 0, m.numActualTokens)
  if requireUniform ∧ m.queryLens.all (fun len => len = firstLen || len = 0) then
    return (m.numReqs, 0, m.numActualTokens, 0)
  let isPrefill := m.queryLens.map fun len =>
    if requireUniform then decide (len ≠ firstLen) else decide (decodeThreshold < len)
  if !isPrefill.any id then return (m.numReqs, 0, m.numActualTokens, 0)
  let firstPrefill ← argmax isPrefill
  Result.ensure (∀ len ∈ m.queryLens.take firstPrefill, len ≤ decodeThreshold)
    "torch.all(query_lens[:first_prefill] <= decode_threshold)"
  let numDecodes : Int := firstPrefill
  let numPrefills := m.numReqs - numDecodes
  let numDecodeTokens ← Result.getItem m.queryStartLocCpu firstPrefill
  return (numDecodes, numPrefills, numDecodeTokens, m.numActualTokens - numDecodeTokens)

end CommonAttentionMetadata

def queryStartLoc (start : Int) : List Int → List Int
  | [] => [start]
  | len :: lens => start :: queryStartLoc (start + len) lens

namespace InputBatch

variable (b : InputBatch F F32 G E) (numScheduledTokens : Dict ReqId Int)

def queryLens : List Int := (List.range b.reqIds.length).map (b.scheduledAt numScheduledTokens)

/-- What `_prepare_inputs` and `_build_attention_metadata` compute of a batch without padding. -/
def attentionMetadata : CommonAttentionMetadata where
  queryStartLocCpu := queryStartLoc 0 (b.queryLens numScheduledTokens)
  seqLensCpu := (List.range b.reqIds.length).map fun i =>
    b.numComputedTokensCpu i + b.scheduledAt numScheduledTokens i
  numReqs := b.reqIds.length
  numActualTokens := (b.queryLens numScheduledTokens).sum
  maxQueryLen := ((b.queryLens numScheduledTokens).max?).getD 0

structure SplitInto (decodeThreshold : Int) (d e p : Nat) : Prop where
  split : (b.attentionMetadata numScheduledTokens).splitDecodesPrefillsAndExtends decodeThreshold =
    .ok ⟨d, e, p, ((b.queryLens numScheduledTokens).take d).sum,
      (((b.queryLens numScheduledTokens).drop d).take e).sum,
      ((b.queryLens numScheduledTokens).drop (d + e)).sum⟩
  total : d + e + p = b.reqIds.length
  decodes : ∀ i < d, b.scheduledAt numScheduledTokens i ≤ decodeThreshold
  middle : ∀ i, d ≤ i → i < d + e →
    decodeThreshold < b.scheduledAt numScheduledTokens i ∧ 0 < b.numComputedTokensCpu i
  prefills : ∀ i, d + e ≤ i → i < b.reqIds.length → b.numComputedTokensCpu i = 0
  sameDecodes : ∃ rest,
    (b.attentionMetadata numScheduledTokens).splitDecodesAndPrefills decodeThreshold false =
      .ok ((d : Int), rest)

def SplitAgrees (decodeThreshold : Int) : Prop :=
  ∃ d e p, b.SplitInto numScheduledTokens decodeThreshold d e p

/-- Right behind the last extend there is no prompt that is as short as a decode. -/
def NoShortPrompt (decodeThreshold : Int) : Prop :=
  (b.reqIds.length = 0 → 0 ≤ decodeThreshold) ∧
    ∀ i, i + 1 < b.reqIds.length → b.regionAt numScheduledTokens decodeThreshold i = 1 →
      b.regionAt numScheduledTokens decodeThreshold (i + 1) = 2 →
      decodeThreshold < b.scheduledAt numScheduledTokens (i + 1)

instance (decodeThreshold : Int) : Decidable (b.NoShortPrompt numScheduledTokens decodeThreshold) :=
  decidable_of_iff ((b.reqIds.length = 0 → 0 ≤ decodeThreshold) ∧ ∀ i < b.reqIds.length, i + 1 < b.reqIds.length →
      b.regionAt numScheduledTokens decodeThreshold i = 1 → b.regionAt numScheduledTokens decodeThreshold (i + 1) = 2 →
      decodeThreshold < b.scheduledAt numScheduledTokens (i + 1))
    ⟨fun h => ⟨h.1, fun i hi => h.2 i (by omega) hi⟩, fun h => ⟨h.1, fun i _ hi => h.2 i hi⟩⟩

end InputBatch

section Masks

variable {n : Nat} {f : Nat → Bool}

def firstSet (n : Nat) (f : Nat → Bool) : Nat := (List.range n).findIdx f

theorem firstSet_le : firstSet n f ≤ n := by
  have hle : (List.range n).findIdx f ≤ (List.range n).length := List.findIdx_le_length
  rwa [List.length_range] at hle

theorem firstSet_spec (h : firstSet n f < n) : f (firstSet n f) = true := by
  have hlt : (List.range n).findIdx f < (List.range n).length := by rwa [List.length_range]
  have hget : f (List.range n)[(List.range n).findIdx f] = true := List.findIdx_getElem
  rwa [List.getElem_range] at hget

theorem of_lt_firstSet {i : Nat} (h : i < firstSet n f) : f i = false := by
  simpa using List.not_of_lt_findIdx h

theorem firstSet_le_of {i : Nat} (h : f i = true) : firstSet n f ≤ i := by
  by_contra hlt
  rw [of_lt_firstSet (Nat.not_le.1 hlt)] at h
  cases h

theorem any_map_range : ((List.range n).map f).any id = decide (firstSet n f < n) := by
  have hlt : (List.range n).findIdx f < (List.range n).length ↔ ∃ i ∈ List.range n, f i :=
    List.findIdx_lt_length
  rw [List.length_range] at hlt
  rw [List.any_map, Bool.eq_iff_iff, decide_eq_true_eq, firstSet, hlt, List.any_eq_true]
  rfl

theorem argmax_map_range (h : 0 < n) : argmax ((List.range n).map f) =
    .ok (if firstSet n f < n then firstSet n f else 0) := by
  have hne : (List.range n).map f ≠ [] := by simpa using Nat.ne_of_gt h
  have hidx : ((List.range n).map f).findIdx id = firstSet n f := List.findIdx_map ..
  rw [argmax, if_neg hne, any_map_range, hidx]
  by_cases hlt : firstSet n f < n
  · rw [if_pos hlt, if_pos (decide_eq_true hlt)]
  · rw [if_neg hlt, if_neg (by simpa using hlt)]

end Masks

section QueryStartLoc

variable {start : Int} {lens : List Int}

theorem zipWith_queryStartLoc (start : Int) (lens : List Int) :
    List.zipWith (· - ·) (queryStartLoc start lens).tail (queryStartLoc start lens).dropLast =
      lens := by
  induction lens generalizing start with
  | nil => rfl
  | cons len lens ih =>
    have hrest := ih (start + len)
    cases lens with
    | nil =>
      show [start + len - start] = [len]
      rw [add_sub_cancel_left]
    | cons len' lens =>
      show (start + len - start) :: _ = _
      rw [add_sub_cancel_left]
      exact congrArg (len :: ·) hrest

theorem getElem?_queryStartLoc {i : Nat} (h : i ≤ lens.length) :
    (queryStartLoc start lens)[i]? = some (start + (lens.take i).sum) := by
  induction lens generalizing start i with
  | nil =>
    rw [Nat.le_zero.1 h]
    simp [queryStartLoc]
  | cons len lens ih =>
    cases i with
    | zero => simp [queryStartLoc]
    | succ i =>
      rw [queryStartLoc, List.getElem?_cons_succ, ih (Nat.le_of_succ_le_succ h), List.take_succ_cons,
        List.sum_cons, Int.add_assoc]

end QueryStartLoc

namespace InputBatch

variable {b : InputBatch F F32 G E} {numScheduledTokens : Dict ReqId Int} {decodeThreshold : Int}

section Split

variable (b numScheduledTokens decodeThreshold)

def firstLong : Nat :=
  firstSet b.reqIds.length fun i => decide (decodeThreshold < b.scheduledAt numScheduledTokens i)

def firstPrompt : Nat :=
  firstSet b.reqIds.length fun i =>
    decide (b.numComputedTokensCpu i = 0) &&
      decide (decodeThreshold < b.scheduledAt numScheduledTokens i)

variable {b numScheduledTokens decodeThreshold}

theorem firstLong_le_firstPrompt : b.firstLong numScheduledTokens decodeThreshold ≤
    b.firstPrompt numScheduledTokens decodeThreshold := by
  by_cases hlt : b.firstPrompt numScheduledTokens decodeThreshold < b.reqIds.length
  · exact firstSet_le_of (Bool.and_eq_true_iff.1 (firstSet_spec hlt)).2
  · exact firstSet_le.trans (Nat.not_lt.1 hlt)

theorem length_queryLens : (b.queryLens numScheduledTokens).length = b.reqIds.length := by
  rw [queryLens, List.length_map, List.length_range]

theorem queryLens_attentionMetadata : (b.attentionMetadata numScheduledTokens).queryLens =
    b.queryLens numScheduledTokens := zipWith_queryStartLoc 0 _

theorem map_long : (b.queryLens numScheduledTokens).map (fun len => decide (decodeThreshold < len)) =
    (List.range b.reqIds.length).map fun i =>
      decide (decodeThreshold < b.scheduledAt numScheduledTokens i) := List.map_map

theorem maxQueryLen_le_iff (numScheduledTokens : Dict ReqId Int)
    (h : b.reqIds.length = 0 → 0 ≤ decodeThreshold) :
    (b.attentionMetadata numScheduledTokens).maxQueryLen ≤ decodeThreshold ↔
      b.firstLong numScheduledTokens decodeThreshold = b.reqIds.length := by
  have hall : (b.attentionMetadata numScheduledTokens).maxQueryLen ≤ decodeThreshold ↔
      ∀ len ∈ b.queryLens numScheduledTokens, len ≤ decodeThreshold := by
    show ((b.queryLens numScheduledTokens).max?).getD 0 ≤ _ ↔ _
    cases hmax : (b.queryLens numScheduledTokens).max? with
    | none =>
      have hnil := List.max?_eq_none_iff.1 hmax
      have hzero : b.reqIds.length = 0 := by rw [← length_queryLens (b := b), hnil]; rfl
      simpa [hnil] using h hzero
    | some k => exact List.max?_le_iff hmax
  rw [hall, firstLong, ← Nat.not_lt.trans firstSet_le.ge_iff_eq, ← not_iff_not, not_not]
  constructor
  · intro hlong
    push Not at hlong
    obtain ⟨len, hmem, hlt⟩ := hlong
    obtain ⟨i, hi, rfl⟩ := List.mem_map.1 hmem
    exact (firstSet_le_of (decide_eq_true hlt)).trans_lt (List.mem_range.1 hi)
  · intro hlt hshort
    have hlong := of_decide_eq_true (firstSet_spec hlt)
    exact Int.not_le.2 hlong (hshort _ (List.mem_map_of_mem (List.mem_range.2 hlt)))

theorem getItem_queryStartLoc {i : Nat} (h : i ≤ b.reqIds.length) :
    Result.getItem (b.attentionMetadata numScheduledTokens).queryStartLocCpu i =
      .ok ((b.queryLens numScheduledTokens).take i).sum := by
  rw [Result.getItem_eq_ok]
  show (queryStartLoc 0 _)[i]? = _
  rw [getElem?_queryStartLoc (length_queryLens.symm ▸ h), Int.zero_add]

theorem isPrefill_eq : List.zipWith (· && ·)
      (List.zipWith (fun seqLen queryLen => decide (seqLen = queryLen))
        (b.attentionMetadata numScheduledTokens).seqLensCpu (b.queryLens numScheduledTokens))
      ((List.range b.reqIds.length).map fun i =>
        decide (decodeThreshold < b.scheduledAt numScheduledTokens i)) =
    (List.range b.reqIds.length).map fun i => decide (b.numComputedTokensCpu i = 0) &&
      decide (decodeThreshold < b.scheduledAt numScheduledTokens i) := by
  show List.zipWith _ (List.zipWith _ ((List.range _).map _) ((List.range _).map _)) _ = _
  rw [List.zipWith_map, List.zipWith_self, List.zipWith_map, List.zipWith_self]
  refine List.map_congr_left fun i _ => ?_
  congr 1
  rw [decide_eq_decide]
  omega

theorem sum_take_sub (lens : List Int) {i j : Nat} (h : i ≤ j) :
    ((lens.drop i).take (j - i)).sum = (lens.take j).sum - (lens.take i).sum := by
  have hsplit := congrArg List.sum (List.take_add (l := lens) (i := i) (j := j - i))
  rw [Nat.add_sub_cancel' h, List.sum_append] at hsplit
  omega

theorem sum_drop (lens : List Int) (i : Nat) :
    (lens.drop i).sum = lens.sum - (lens.take i).sum := by
  have hsplit := congrArg List.sum (List.take_append_drop i lens)
  rw [List.sum_append] at hsplit
  omega

variable (b numScheduledTokens decodeThreshold)

def longMask : List Bool := (List.range b.reqIds.length).map fun i =>
  decide (decodeThreshold < b.scheduledAt numScheduledTokens i)

def promptMask : List Bool := (List.range b.reqIds.length).map fun i =>
  decide (b.numComputedTokensCpu i = 0) &&
    decide (decodeThreshold < b.scheduledAt numScheduledTokens i)

variable {b numScheduledTokens decodeThreshold} {long prompt : Nat}

theorem any_longMask (hlong : b.firstLong numScheduledTokens decodeThreshold = long) :
    (b.longMask numScheduledTokens decodeThreshold).any id = decide (long < b.reqIds.length) :=
  hlong ▸ any_map_range

theorem any_promptMask (hprompt : b.firstPrompt numScheduledTokens decodeThreshold = prompt) :
    (b.promptMask numScheduledTokens decodeThreshold).any id = decide (prompt < b.reqIds.length) :=
  hprompt ▸ any_map_range

theorem argmax_longMask (hlong : b.firstLong numScheduledTokens decodeThreshold = long)
    (hlt : long < b.reqIds.length) :
    argmax (b.longMask numScheduledTokens decodeThreshold) = .ok long := by
  have hmax := argmax_map_range (n := b.reqIds.length) (f := fun i =>
    decide (decodeThreshold < b.scheduledAt numScheduledTokens i)) (Nat.zero_lt_of_lt hlt)
  subst hlong
  exact hmax.trans (congrArg Except.ok (if_pos hlt))

theorem argmax_promptMask (hprompt : b.firstPrompt numScheduledTokens decodeThreshold = prompt)
    (hpos : 0 < b.reqIds.length) : argmax (b.promptMask numScheduledTokens decodeThreshold) =
      .ok (if prompt < b.reqIds.length then prompt else 0) :=
  hprompt ▸ argmax_map_range hpos

theorem decode_of_lt (hlong : b.firstLong numScheduledTokens decodeThreshold = long) {i : Nat}
    (hi : i < long) : b.scheduledAt numScheduledTokens i ≤ decodeThreshold :=
  Int.not_lt.1 (of_decide_eq_false (of_lt_firstSet (hlong.symm ▸ hi)))

theorem splitDecodesPrefillsAndExtends_eq (h : b.reqIds.length = 0 → 0 ≤ decodeThreshold)
    (hlong : b.firstLong numScheduledTokens decodeThreshold = long)
    (hprompt : b.firstPrompt numScheduledTokens decodeThreshold = prompt) :
    (b.attentionMetadata numScheduledTokens).splitDecodesPrefillsAndExtends decodeThreshold =
      .ok ⟨long, (prompt - long : Nat), (b.reqIds.length - prompt : Nat),
        ((b.queryLens numScheduledTokens).take long).sum,
        (((b.queryLens numScheduledTokens).drop long).take (prompt - long)).sum,
        ((b.queryLens numScheduledTokens).drop prompt).sum⟩ := by
  have hle : long ≤ prompt := hlong ▸ hprompt ▸ firstLong_le_firstPrompt
  have hpromptLe : prompt ≤ b.reqIds.length := hprompt ▸ firstSet_le
  have htotal : ((b.queryLens numScheduledTokens).take b.reqIds.length).sum =
      (b.queryLens numScheduledTokens).sum := by
    rw [List.take_of_length_le (Nat.le_of_eq length_queryLens)]
  have hactual : (b.attentionMetadata numScheduledTokens).numActualTokens =
      (b.queryLens numScheduledTokens).sum := rfl
  have hreqs : (b.attentionMetadata numScheduledTokens).numReqs = b.reqIds.length := rfl
  have hmax := maxQueryLen_le_iff numScheduledTokens h
  rw [hlong] at hmax
  rw [sum_take_sub _ hle, sum_drop]
  unfold CommonAttentionMetadata.splitDecodesPrefillsAndExtends
  by_cases hshort : long = b.reqIds.length
  · have heq : prompt = b.reqIds.length := Nat.le_antisymm hpromptLe (hshort ▸ hle)
    rw [if_pos (hmax.2 hshort), heq, hshort, htotal, Nat.sub_self, Int.sub_self]
    rfl
  · have hlt : long < b.reqIds.length := Nat.lt_of_le_of_ne (hle.trans hpromptLe) hshort
    rw [if_neg (mt hmax.1 hshort)]
    dsimp only
    rw [queryLens_attentionMetadata, map_long, isPrefill_eq]
    change (argmax (b.longMask numScheduledTokens decodeThreshold) >>= fun firstExtend =>
      argmax (b.promptMask numScheduledTokens decodeThreshold) >>= fun firstPrefill => _) = _
    rw [argmax_longMask hlong hlt, Result.ok_bind,
      argmax_promptMask hprompt (Nat.zero_lt_of_lt hlt), Result.ok_bind]
    change (Result.getItem _ long >>= fun numDecodeTokens => if (!(b.longMask _ _).any id) = true
      then _ else if (!(b.promptMask _ _).any id) = true then _ else _) = _
    rw [getItem_queryStartLoc hlt.le, Result.ok_bind, any_longMask hlong, any_promptMask hprompt,
      decide_eq_true hlt, if_neg (by simp), hreqs, hactual]
    by_cases hltPrompt : prompt < b.reqIds.length
    · rw [if_pos hltPrompt, decide_eq_true hltPrompt, if_neg (by simp),
        getItem_queryStartLoc hltPrompt.le]
      refine congrArg Except.ok ?_
      rw [BatchSplit.mk.injEq]
      refine ⟨rfl, ?_, ?_, rfl, ?_, rfl⟩ <;> omega
    · have heq : prompt = b.reqIds.length := Nat.le_antisymm hpromptLe (Nat.not_lt.1 hltPrompt)
      rw [decide_eq_false hltPrompt, if_pos (by simp), heq, htotal]
      refine congrArg Except.ok ?_
      rw [BatchSplit.mk.injEq]
      refine ⟨rfl, ?_, ?_, rfl, ?_, ?_⟩ <;> omega

theorem splitDecodesAndPrefills_eq (h : b.reqIds.length = 0 → 0 ≤ decodeThreshold)
    (hlong : b.firstLong numScheduledTokens decodeThreshold = long) :
    ∃ rest, (b.attentionMetadata numScheduledTokens).splitDecodesAndPrefills decodeThreshold false =
      .ok ((long : Int), rest) := by
  have hmax := maxQueryLen_le_iff numScheduledTokens h
  rw [hlong] at hmax
  unfold CommonAttentionMetadata.splitDecodesAndPrefills
  by_cases hshort : long = b.reqIds.length
  · rw [if_pos ⟨hmax.2 hshort, .inl rfl⟩, hshort]
    exact ⟨_, rfl⟩
  · have hle : long ≤ b.reqIds.length := hlong ▸ firstSet_le
    have hlt : long < b.reqIds.length := Nat.lt_of_le_of_ne hle hshort
    have hfirst : Result.getItem (b.queryLens numScheduledTokens) 0 =
        .ok (b.scheduledAt numScheduledTokens 0) := by
      rw [Result.getItem_eq_ok, queryLens, List.getElem?_map,
        List.getElem?_range (Nat.zero_lt_of_lt hlt)]
      rfl
    rw [if_neg fun hand => hshort (hmax.1 hand.1), queryLens_attentionMetadata, hfirst,
      Result.ok_bind]
    by_cases hzero : b.scheduledAt numScheduledTokens 0 > decodeThreshold
    · have hfirst : long = 0 := Nat.le_zero.1 (hlong ▸ firstSet_le_of (decide_eq_true hzero))
      rw [if_pos hzero, hfirst]
      exact ⟨_, rfl⟩
    · rw [if_neg hzero, if_neg (by simp)]
      simp only [Bool.false_eq_true, if_false]
      rw [map_long]
      change ∃ rest, (if (!(b.longMask _ _).any id) = true then _ else
        argmax (b.longMask numScheduledTokens decodeThreshold) >>= _) = _
      rw [any_longMask hlong, decide_eq_true hlt, if_neg (by simp), argmax_longMask hlong hlt,
        Result.ok_bind]
      have hdecodes : ∀ len ∈ (b.queryLens numScheduledTokens).take long,
          len ≤ decodeThreshold := by
        intro len hlen
        obtain ⟨i, hi, rfl⟩ := List.mem_iff_getElem.1 hlen
        rw [List.length_take] at hi
        rw [List.getElem_take]
        simp only [queryLens, List.getElem_map, List.getElem_range]
        exact decode_of_lt hlong (Nat.lt_of_lt_of_le hi (Nat.min_le_left _ _))
      rw [(Result.ensure_eq_ok (x := ⟨⟩)).2 hdecodes, Result.ok_bind, getItem_queryStartLoc hle]
      exact ⟨_, rfl⟩

end Split

section Agreement

variable {long prompt : Nat}

theorem regionAt_eq_one {i : Nat} : b.regionAt numScheduledTokens decodeThreshold i = 1 ↔
    decodeThreshold < b.scheduledAt numScheduledTokens i ∧ 0 < b.numComputedTokensCpu i := by
  rw [regionAt, ← isExtend_iff]
  simp [isExtend, isPrefill, Nat.pos_iff_ne_zero]

theorem regionAt_eq_two {i : Nat} : b.regionAt numScheduledTokens decodeThreshold i = 2 ↔
    b.numComputedTokensCpu i = 0 := by
  unfold regionAt reqRegion isPrefill
  split
  · rename_i h
    simpa using h
  · rename_i h
    have hne : ¬ b.numComputedTokensCpu i = 0 := by simpa using h
    split <;> simpa using hne

theorem firstPrompt_spec (hprompt : b.firstPrompt numScheduledTokens decodeThreshold = prompt)
    (hlt : prompt < b.reqIds.length) : b.numComputedTokensCpu prompt = 0 ∧
      decodeThreshold < b.scheduledAt numScheduledTokens prompt := by
  subst hprompt
  have hfirst := Bool.and_eq_true_iff.1 (firstSet_spec hlt)
  exact ⟨of_decide_eq_true hfirst.1, of_decide_eq_true hfirst.2⟩

theorem firstLong_spec (hlong : b.firstLong numScheduledTokens decodeThreshold = long)
    (hlt : long < b.reqIds.length) : decodeThreshold < b.scheduledAt numScheduledTokens long := by
  subst hlong
  exact of_decide_eq_true (firstSet_spec hlt)

theorem prompt_of_le (hsorted : ∀ i j, i ≤ j → j < b.reqIds.length →
      b.regionAt numScheduledTokens decodeThreshold i ≤
        b.regionAt numScheduledTokens decodeThreshold j)
    (hprompt : b.firstPrompt numScheduledTokens decodeThreshold = prompt) {i : Nat}
    (hi : prompt ≤ i) (hlt : i < b.reqIds.length) : b.numComputedTokensCpu i = 0 := by
  have hle := hsorted prompt i hi hlt
  rw [regionAt_eq_two.2 (firstPrompt_spec hprompt (Nat.lt_of_le_of_lt hi hlt)).1] at hle
  refine regionAt_eq_two.1 (Nat.le_antisymm ?_ hle)
  exact Nat.le_of_lt_succ (regionAt_lt i)

theorem extend_of_noShortPrompt (hno : b.NoShortPrompt numScheduledTokens decodeThreshold)
    (hsorted : ∀ i j, i ≤ j → j < b.reqIds.length →
      b.regionAt numScheduledTokens decodeThreshold i ≤
        b.regionAt numScheduledTokens decodeThreshold j)
    (hlong : b.firstLong numScheduledTokens decodeThreshold = long)
    (hprompt : b.firstPrompt numScheduledTokens decodeThreshold = prompt) {i : Nat}
    (hi : long ≤ i) (hlt : i < prompt) :
    b.regionAt numScheduledTokens decodeThreshold i = 1 := by
  have hle : prompt ≤ b.reqIds.length := hprompt ▸ firstSet_le
  -- a long request before the first long prompt has computed tokens
  have hcontext : ∀ k < prompt, decodeThreshold < b.scheduledAt numScheduledTokens k →
      b.regionAt numScheduledTokens decodeThreshold k = 1 := by
    intro k hk hlongK
    refine regionAt_eq_one.2 ⟨hlongK, Nat.pos_iff_ne_zero.2 fun hzero => ?_⟩
    have hnot := of_lt_firstSet (hprompt.symm ▸ hk : k < b.firstPrompt _ _)
    rw [Bool.and_eq_false_iff] at hnot
    exact hnot.elim (fun hc => of_decide_eq_false hc hzero) fun hl => of_decide_eq_false hl hlongK
  induction i, hi using Nat.le_induction with
  | base => exact hcontext long hlt (firstLong_spec hlong (Nat.lt_of_lt_of_le hlt hle))
  | succ i hi ih =>
    have hone := ih (Nat.lt_of_succ_lt hlt)
    have hmono := hsorted i (i + 1) (Nat.le_succ i) (Nat.lt_of_lt_of_le hlt hle)
    have hbound : b.regionAt numScheduledTokens decodeThreshold (i + 1) < 3 := regionAt_lt _
    rcases Nat.lt_or_ge 1 (b.regionAt numScheduledTokens decodeThreshold (i + 1)) with htwo | hone'
    · have htwo : b.regionAt numScheduledTokens decodeThreshold (i + 1) = 2 := by omega
      exact hcontext _ hlt (hno.2 i (Nat.lt_of_lt_of_le hlt hle) hone htwo)
    · omega

theorem splitInto_nonneg {d e p : Nat} (h : b.SplitInto numScheduledTokens decodeThreshold d e p) :
    b.reqIds.length = 0 → 0 ≤ decodeThreshold := by
  intro hzero
  by_contra hneg
  have hlens : b.queryLens numScheduledTokens = [] := by
    rw [← List.length_eq_zero_iff, length_queryLens, hzero]
  have hmax : (b.attentionMetadata numScheduledTokens).maxQueryLen = 0 := by
    show ((b.queryLens numScheduledTokens).max?).getD 0 = 0
    rw [hlens]
    rfl
  have hsplit := h.split
  unfold CommonAttentionMetadata.splitDecodesPrefillsAndExtends at hsplit
  rw [hmax, if_neg hneg, queryLens_attentionMetadata, hlens] at hsplit
  cases hsplit

/-- The split of an ordered batch agrees with the order just where no short prompt comes right
behind the extends. -/
theorem splitAgrees_iff (hsorted : ∀ i j, i ≤ j → j < b.reqIds.length →
      b.regionAt numScheduledTokens decodeThreshold i ≤
        b.regionAt numScheduledTokens decodeThreshold j) :
    b.SplitAgrees numScheduledTokens decodeThreshold ↔
      b.NoShortPrompt numScheduledTokens decodeThreshold := by
  obtain ⟨long, hlong⟩ : ∃ k, b.firstLong numScheduledTokens decodeThreshold = k := ⟨_, rfl⟩
  obtain ⟨prompt, hprompt⟩ : ∃ k, b.firstPrompt numScheduledTokens decodeThreshold = k := ⟨_, rfl⟩
  have hle : long ≤ prompt := hlong ▸ hprompt ▸ firstLong_le_firstPrompt
  have hpromptLe : prompt ≤ b.reqIds.length := hprompt ▸ firstSet_le
  constructor
  · rintro ⟨d, e, p, h⟩
    have hnonneg := splitInto_nonneg h
    have hsplit := h.split
    rw [splitDecodesPrefillsAndExtends_eq hnonneg hlong hprompt, Except.ok.injEq,
      BatchSplit.mk.injEq] at hsplit
    obtain ⟨hd, he, -⟩ := hsplit
    refine ⟨hnonneg, fun i hi hone htwo => ?_⟩
    have hlongI : long ≤ i := by
      rw [← hlong]
      exact firstSet_le_of (decide_eq_true (regionAt_eq_one.1 hone).1)
    have hfresh := regionAt_eq_two.1 htwo
    have hbound : prompt ≤ i + 1 := by
      by_contra hlt
      have := (h.middle (i + 1) (by omega) (by omega)).2
      omega
    have hprev : i < prompt := by
      by_contra hlt
      have := prompt_of_le hsorted hprompt (Nat.not_lt.1 hlt) (Nat.lt_of_succ_lt hi)
      have := (regionAt_eq_one.1 hone).2
      omega
    have heq : prompt = i + 1 := Nat.le_antisymm hbound hprev
    exact heq ▸ (firstPrompt_spec hprompt (heq ▸ hi)).2
  · intro hno
    refine ⟨long, prompt - long, b.reqIds.length - prompt, ?_⟩
    constructor
    case split =>
      rw [splitDecodesPrefillsAndExtends_eq hno.1 hlong hprompt, Nat.add_sub_cancel' hle]
    case total => omega
    case decodes => exact fun i hi => decode_of_lt hlong hi
    case middle =>
      intro i hi hlt
      exact regionAt_eq_one.1 (extend_of_noShortPrompt hno hsorted hlong hprompt hi (by omega))
    case prefills => exact fun i hi hlt => prompt_of_le hsorted hprompt (by omega) hlt
    case sameDecodes => exact splitDecodesAndPrefills_eq hno.1 hlong

end Agreement

section Reordered

variable {c : InputBatchConfig F F32} {modified : Bool} {st : Reordering F F32 G E}

/-- A batch that has just been reordered is split as it was ordered just where no short prompt comes
right behind the extends. -/
theorem splitAgrees_reordered_iff (hs : b.Shaped) (hall : b.AllScheduled numScheduledTokens)
    (h : b.reorderBatchToSplitDecodesAndPrefills c numScheduledTokens decodeThreshold =
      .ok (modified, st)) :
    st.batch.SplitAgrees numScheduledTokens decodeThreshold ↔
      st.batch.NoShortPrompt numScheduledTokens decodeThreshold := by
  have hreordered := reordered_of_ok hs hall h
  refine splitAgrees_iff fun i j hij hj => ?_
  exact hreordered.sorted i j hij (hreordered.length_eq ▸ hj)

def extendRun : List (BatchOp Int Nat Nat) :=
  [.addRequest (computedRequest "a" 4), .addRequest (computedRequest "b" 0)]

def extendTokens : Dict ReqId Int := (Dict.empty.set "a" 5).set "b" 1

/-- The prompt is counted as an extend. -/
theorem splitAgrees_extendRun : ∃ st modified st',
    runSteps (ModelRunner.batchStep reorderConfig) (ModelRunner.init reorderConfig [sampleTable])
      extendRun = .ok st ∧
    st.batch.reorderBatchToSplitDecodesAndPrefills reorderConfig extendTokens 1 =
      .ok (modified, st') ∧ ¬ st'.batch.SplitAgrees extendTokens 1 := by
  obtain ⟨st, hok, hreorder⟩ := Result.exists_of_holds
    (x := runSteps (ModelRunner.batchStep reorderConfig)
      (ModelRunner.init reorderConfig [sampleTable]) extendRun)
    (p := fun st => Result.holds
      (st.batch.reorderBatchToSplitDecodesAndPrefills reorderConfig extendTokens 1) fun r =>
        Result.holds
          ((r.2.batch.attentionMetadata extendTokens).splitDecodesPrefillsAndExtends 1)
          (fun s => s = ⟨0, 2, 0, 0, 6, 0⟩) && r.2.batch.numComputedTokensCpu 1 = 0)
    (by decide +kernel)
  obtain ⟨⟨modified, st'⟩, hreorder, hsplit⟩ := Result.exists_of_holds hreorder
  obtain ⟨hsplit, hcomputed⟩ := Bool.and_eq_true_iff.1 hsplit
  obtain ⟨s, hsplit, hs⟩ := Result.exists_of_holds hsplit
  refine ⟨st, modified, st', hok, hreorder, ?_⟩
  rintro ⟨d, e, p, h⟩
  have heq := h.split.symm.trans (hsplit.trans (congrArg Except.ok (of_decide_eq_true hs)))
  rw [Except.ok.injEq, BatchSplit.mk.injEq] at heq
  obtain ⟨hd, he, -⟩ := heq
  have hmiddle := (h.middle 1 (by omega) (by omega)).2
  have hcomputed := of_decide_eq_true hcomputed
  dsimp only at hcomputed
  omega

theorem splitAgrees_reordered_iff_mixedRun : ∃ st modified st',
    runSteps (ModelRunner.batchStep reorderConfig) (ModelRunner.init reorderConfig [sampleTable])
      mixedRun = .ok st ∧
    st.batch.reorderBatchToSplitDecodesAndPrefills reorderConfig mixedTokens 1 =
      .ok (modified, st') ∧
    st'.batch.SplitAgrees mixedTokens 1 := by
  obtain ⟨st, hok, hfacts⟩ := Result.exists_of_holds
    (x := runSteps (ModelRunner.batchStep reorderConfig)
      (ModelRunner.init reorderConfig [sampleTable]) mixedRun)
    (p := fun st => decide (st.batch.reqIds = [some "a", some "b", some "c", some "d"]) && Result.holds
      (st.batch.reorderBatchToSplitDecodesAndPrefills reorderConfig mixedTokens 1)
      fun r => r.2.batch.NoShortPrompt mixedTokens 1)
    (by decide +kernel)
  rw [Bool.and_eq_true, decide_eq_true_eq] at hfacts
  obtain ⟨hids, hreorder⟩ := hfacts
  obtain ⟨⟨modified, st'⟩, hreorder, hshort⟩ := Result.exists_of_holds hreorder
  have hknown := ModelRunner.known_of_run (by decide +kernel) hok
  have hall : st.batch.AllScheduled mixedTokens := by
    unfold AllScheduled
    rw [hids]
    decide +kernel
  exact ⟨st, modified, st', hok, hreorder,
    (splitAgrees_reordered_iff hknown.shaped hall hreorder).mpr (of_decide_eq_true hshort)⟩

end Reordered

end InputBatch

end Vllm.Worker
