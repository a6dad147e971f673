import Vllm.Sampler

namespace Vllm.Sample

variable {vocabSize : Nat}

structure Position (vocabSize : Nat) where
  request : CachedRequest vocabSize
  past : List Int
  logits : Row

def completes (past word : List Int) (token : Nat) : Bool :=
  word.length ≤ past.length + 1 && word.getLast? = some (token : Int) &&
    past.drop (past.length - (word.length - 1)) = word.take (word.length - 1)

namespace SamplingParams

def masked (p : SamplingParams vocabSize) (token : Nat) : Bool :=
  !p.allowedTokenIds.isEmpty && token ∉ p.allowedTokenIds

def forbids (p : SamplingParams vocabSize) (past : List Int) (token : Nat) : Bool :=
  p.badWordsTokenIds.any (completes past · token)

def penalize (p : SamplingParams vocabSize) (prompt past : List Int) (token : Nat) (logit : Logit) :
    Logit :=
  let seen := 0 < prompt.count (token : Int) || 0 < past.count (token : Int)
  let logit := applyRepetitionPenalty p.repetitionPenalty seen logit
  let logit := logit.map (· - p.frequencyPenalty * past.count (token : Int))
  logit.map (· - p.presencePenalty * if 0 < past.count (token : Int) then 1 else 0)

@[simp] theorem penalize_bot (p : SamplingParams vocabSize) (prompt past : List Int) (token : Nat) :
    p.penalize prompt past token ⊥ = ⊥ := rfl

theorem penalize_default {p : SamplingParams vocabSize} (hpresence : p.presencePenalty = 0)
    (hfrequency : p.frequencyPenalty = 0) (hrepetition : p.repetitionPenalty = 1)
    (prompt past : List Int) (token : Nat) (logit : Logit) :
    p.penalize prompt past token logit = logit := by
  have hscale : ∀ seen, applyRepetitionPenalty 1 seen logit = logit := by
    intro seen
    induction logit using WithBot.recBotCoe with
    | bot => rfl
    | coe x => simp [applyRepetitionPenalty]
  unfold penalize
  dsimp only
  rw [hpresence, hfrequency, hrepetition, hscale]
  induction logit using WithBot.recBotCoe with
  | bot => rfl
  | coe x => simp

end SamplingParams

def Position.processed (x : Position vocabSize) : Row :=
  x.logits.mapIdx fun token logit =>
    if x.request.samplingParams.masked token || x.request.samplingParams.forbids x.past token then ⊥
    else x.request.samplingParams.penalize x.request.promptTokenIds x.past token logit

structure CachedRequest.Valid (r : CachedRequest vocabSize) : Prop where
  prompt : ∀ token ∈ r.promptTokenIds, 0 ≤ token ∧ token < vocabSize
  output : ∀ token ∈ r.outputTokenIds, 0 ≤ token ∧ token < vocabSize
  spec : ∀ token ∈ r.specTokenIds, -1 ≤ token ∧ token < vocabSize
  computed : r.numComputedTokens < r.promptTokenIds.length + r.outputTokenIds.length

structure Position.Valid (x : Position vocabSize) : Prop where
  request : x.request.Valid
  past : ∀ token ∈ x.past, -1 ≤ token ∧ token < vocabSize
  logits : x.logits.length = vocabSize

section Penalties

def padTo (len : Nat) (pad : Int) (row : List Int) : List Int :=
  row ++ List.replicate (len - row.length) pad

theorem exists_padTo (rows : List (List Int)) (pad : Int) :
    ∃ len, makeTensorWithPad rows pad = rows.map (padTo len pad) := ⟨_, rfl⟩

theorem count_padTo (len : Nat) (row : List Int) {token : Nat} (h : token < vocabSize) :
    (padTo len vocabSize row).count (token : Int) = row.count (token : Int) := by
  have hne : (vocabSize : Int) ≠ token := by omega
  rw [padTo, List.count_append, List.count_replicate, if_neg (by simpa using hne), Nat.add_zero]

theorem count_masked_placeholders (row : List Int) {token : Nat} (h : token < vocabSize) :
    (row.map fun t => if t = -1 then (vocabSize : Int) else t).count (token : Int) =
      row.count (token : Int) := by
  rw [List.count_eq_countP, List.count_eq_countP, List.countP_map]
  refine List.countP_congr fun t _ => ?_
  simp only [Function.comp_apply, beq_iff_eq]
  split <;> omega

theorem getTokenBinCounts_ok {tokens : List Int}
    (h : ∀ token ∈ tokens, 0 ≤ token ∧ token ≤ vocabSize) :
    getTokenBinCounts vocabSize tokens =
      .ok ((List.range vocabSize).map fun token : Nat => tokens.count (token : Int)) := if_pos h

theorem getD_counts (tokens : List Int) {token : Nat} (h : token < vocabSize) :
    ((List.range vocabSize).map fun token : Nat => tokens.count (token : Int)).getD token 0 =
      tokens.count (token : Int) := by
  rw [List.getD_eq_getElem?_getD, List.getElem?_map, List.getElem?_range h]
  rfl

theorem valid_padTo {len : Nat} {row : List Int} (h : ∀ token ∈ row, 0 ≤ token ∧ token ≤ vocabSize) :
    ∀ token ∈ padTo len vocabSize row, 0 ≤ token ∧ token ≤ vocabSize := by
  intro token htoken
  rcases List.mem_append.1 htoken with htoken | htoken
  · exact h token htoken
  · rw [List.eq_of_mem_replicate htoken]
    omega

theorem applyPenaltiesRow_ok {x : Position vocabSize} (hx : x.Valid) (promptLen pastLen : Nat)
    {logits : Row} (hlogits : logits.length = vocabSize) :
    applyPenaltiesRow vocabSize (padTo promptLen vocabSize x.request.promptTokenIds)
      ((padTo pastLen vocabSize x.past).map fun t => if t = -1 then (vocabSize : Int) else t)
      x.request.samplingParams.presencePenalty x.request.samplingParams.frequencyPenalty
      x.request.samplingParams.repetitionPenalty logits =
    .ok (logits.mapIdx
      (x.request.samplingParams.penalize x.request.promptTokenIds x.past)) := by
  have hprompt : ∀ token ∈ padTo promptLen vocabSize x.request.promptTokenIds,
      0 ≤ token ∧ token ≤ vocabSize :=
    valid_padTo fun token h => ⟨(hx.request.prompt token h).1, (hx.request.prompt token h).2.le⟩
  have hpast : ∀ token ∈ (padTo pastLen vocabSize x.past).map
      (fun t => if t = -1 then (vocabSize : Int) else t), 0 ≤ token ∧ token ≤ vocabSize := by
    intro token htoken
    obtain ⟨t, ht, rfl⟩ := List.mem_map.1 htoken
    rcases List.mem_append.1 ht with ht | ht
    · have := hx.past t ht
      split <;> omega
    · rw [List.eq_of_mem_replicate ht]
      split <;> omega
  unfold applyPenaltiesRow
  rw [getTokenBinCounts_ok hprompt, Result.ok_bind, getTokenBinCounts_ok hpast, Result.ok_bind]
  refine congrArg Except.ok (List.ext_getElem? fun token => ?_)
  rw [List.getElem?_mapIdx, List.getElem?_mapIdx]
  by_cases htoken : token < vocabSize
  · simp only [getD_counts _ htoken, count_masked_placeholders _ htoken, count_padTo _ _ htoken]
    rfl
  · rw [List.getElem?_eq_none (by omega)]
    rfl

theorem mapM_range {α β : Type} {xs : List α} {f : Nat → Result β} {g : α → β}
    (h : ∀ i x, xs[i]? = some x → f i = .ok (g x)) :
    (List.range xs.length).mapM f = .ok (xs.map g) := by
  induction xs generalizing f with
  | nil => rfl
  | cons x xs ih =>
    have hrest := ih (f := f ∘ Nat.succ) fun i y hi => h (i + 1) y hi
    rw [List.length_cons, List.range_succ_eq_map, List.mapM_cons, h 0 x rfl, Result.ok_bind,
      List.mapM_map, hrest]
    rfl

theorem applyAllPenalties_ok {xs : List (Position vocabSize)} (hxs : ∀ x ∈ xs, x.Valid)
    (promptLen : Nat) {logits : Position vocabSize → Row}
    (hlogits : ∀ x ∈ xs, (logits x).length = vocabSize) :
    applyAllPenalties vocabSize (xs.map logits)
      (xs.map fun x => padTo promptLen vocabSize x.request.promptTokenIds)
      (xs.map (·.request.samplingParams.presencePenalty))
      (xs.map (·.request.samplingParams.frequencyPenalty))
      (xs.map (·.request.samplingParams.repetitionPenalty)) (xs.map (·.past)) =
    .ok (xs.map fun x => (logits x).mapIdx
      (x.request.samplingParams.penalize x.request.promptTokenIds x.past)) := by
  obtain ⟨pastLen, hpad⟩ := exists_padTo (xs.map (·.past)) vocabSize
  unfold applyAllPenalties
  rw [hpad, List.length_map]
  refine mapM_range fun i x hi => ?_
  have hx : x ∈ xs := List.mem_of_getElem? hi
  have hget : ∀ {α : Type} (f : Position vocabSize → α),
      Result.getItem (xs.map f) i = .ok (f x) := fun f => by
    rw [Result.getItem_eq_ok, List.getElem?_map, hi]
    rfl
  rw [List.map_map, List.map_map]
  simp only [hget, Result.ok_bind, Function.comp_apply]
  exact applyPenaltiesRow_ok (hxs x hx) promptLen pastLen (hlogits x hx)

end Penalties

section BadWords

theorem applyBadWord_ok {past word : List Int} {logits : Row} (hne : word ≠ [])
    (hvalid : ∀ token ∈ word, 0 ≤ token ∧ token < vocabSize) (hlogits : logits.length = vocabSize) :
    applyBadWord past logits word =
      .ok (logits.mapIdx fun token logit => if completes past word token then ⊥ else logit) := by
  have hlast := List.getLast?_eq_some_getLast hne
  have hmem := List.getLast_mem hne
  generalize word.getLast hne = last at hlast hmem
  obtain ⟨hnonneg, hlt⟩ := hvalid last hmem
  obtain ⟨k, rfl⟩ := Int.eq_ofNat_of_zero_le hnonneg
  have hk : k < logits.length := by omega
  -- without a prefix to compare, the slice from the end is empty
  have hslice : (if word.length - 1 > 0 then past.drop (past.length - (word.length - 1)) else []) =
      past.drop (past.length - (word.length - 1)) := by
    split
    · rfl
    · rename_i hzero
      rw [Nat.eq_zero_of_not_pos hzero, Nat.sub_zero, List.drop_length]
  unfold applyBadWord
  rw [hlast]
  dsimp only
  rw [hslice]
  split
  · rename_i hlong
    refine congrArg Except.ok (List.ext_getElem? fun token => ?_)
    rw [List.getElem?_mapIdx, completes, decide_eq_false (by omega)]
    simp
  · rename_i hshort
    have hlen : (past.drop (past.length - (word.length - 1))).length =
        (word.take (word.length - 1)).length := by
      rw [List.length_drop, List.length_take]
      omega
    rw [Result.ensure, if_pos hlen, Result.ok_bind]
    split
    · rename_i hsame
      have hset : Numpy.setItem logits (k : Int) ⊥ = .ok (logits.set k ⊥) :=
        Numpy.setItem_natCast ⊥ hk
      rw [hset]
      refine congrArg Except.ok (List.ext_getElem? fun token => ?_)
      rw [List.getElem?_set, List.getElem?_mapIdx, completes, hlast, decide_eq_true hsame,
        decide_eq_true (show word.length ≤ past.length + 1 by omega)]
      by_cases htoken : k = token
      · subst htoken
        rw [if_pos rfl, if_pos hk, List.getElem?_eq_getElem hk]
        simp
      · rw [if_neg htoken]
        have hne' : ((k : Int) = token) = False := eq_false fun h => htoken (by exact_mod_cast h)
        simp [hne']
    · rename_i hdiff
      refine congrArg Except.ok (List.ext_getElem? fun token => ?_)
      rw [List.getElem?_mapIdx, completes, decide_eq_false hdiff, Bool.and_false]
      simp

def Position.banned (x : Position vocabSize) (logits : Row) : Row :=
  logits.mapIdx fun token logit =>
    if x.request.samplingParams.forbids x.past token then ⊥ else logit

theorem applyBadWordList_ok {past : List Int} {words : List (List Int)} {logits : Row}
    (hne : ∀ word ∈ words, word ≠ [])
    (hvalid : ∀ word ∈ words, ∀ token ∈ word, 0 ≤ token ∧ token < vocabSize)
    (hlogits : logits.length = vocabSize) :
    words.foldlM (applyBadWord past) logits = .ok (logits.mapIdx fun token logit =>
      if words.any (completes past · token) then ⊥ else logit) := by
  induction words generalizing logits with
  | nil => exact congrArg Except.ok (List.ext_getElem? fun i => by simp)
  | cons word words ih =>
    obtain ⟨hword, hne⟩ := List.forall_mem_cons.1 hne
    obtain ⟨hwordValid, hvalid⟩ := List.forall_mem_cons.1 hvalid
    rw [List.foldlM_cons, applyBadWord_ok hword hwordValid hlogits, Result.ok_bind,
      ih hne hvalid (by rw [List.length_mapIdx, hlogits])]
    refine congrArg Except.ok (List.ext_getElem? fun token => ?_)
    simp only [List.getElem?_mapIdx, Option.map_map, List.any_cons]
    congr 1
    funext logit
    by_cases h : completes past word token = true <;> simp [h]

theorem applyBadWordsSingleBatch_ok {x : Position vocabSize} {logits : List Row}
    {pasts : List (List Int)} {i : Nat} {row : Row} (hpast : pasts[i]? = some x.past)
    (hrow : logits[i]? = some row) (hlen : row.length = vocabSize) :
    applyBadWordsSingleBatch logits i x.request.samplingParams.badWordsTokenIds pasts =
      .ok (logits.set i (x.banned row)) := by
  unfold applyBadWordsSingleBatch
  rw [Result.getItem_eq_ok.2 hpast, Result.ok_bind, Result.getItem_eq_ok.2 hrow, Result.ok_bind,
    applyBadWordList_ok x.request.samplingParams.badWords_ne_nil
      x.request.samplingParams.badWords_valid hlen]
  rfl

theorem Position.banned_of_nil {x : Position vocabSize}
    (h : x.request.samplingParams.badWordsTokenIds = []) (logits : Row) :
    x.banned logits = logits := by
  refine List.ext_getElem? fun token => ?_
  rw [banned, List.getElem?_mapIdx, SamplingParams.forbids, h]
  simp

theorem mem_badWordsTokenIds {reqs : List (CachedRequest vocabSize)} {i : Nat}
    {words : List (List Int)} :
    (i, words) ∈ (InputBatch.badWordsTokenIds reqs).items ↔
      ∃ r, reqs[i]? = some r ∧ r.samplingParams.badWordsTokenIds = words ∧ words ≠ [] := by
  simp only [InputBatch.badWordsTokenIds, List.mem_filter, List.mem_mapIdx, Prod.mk.injEq,
    decide_eq_true_eq]
  constructor
  · rintro ⟨⟨j, hj, rfl, rfl⟩, hne⟩
    exact ⟨reqs[j], List.getElem?_eq_getElem hj, rfl, hne⟩
  · rintro ⟨r, hr, rfl, hne⟩
    obtain ⟨hi, rfl⟩ := List.getElem?_eq_some_iff.1 hr
    exact ⟨⟨i, hi, rfl, rfl⟩, hne⟩

theorem applyBadWords_ok {xs : List (Position vocabSize)} {logits : Position vocabSize → Row}
    (hlogits : ∀ x ∈ xs, (logits x).length = vocabSize) :
    applyBadWords (xs.map logits) (InputBatch.badWordsTokenIds (xs.map (·.request)))
      (xs.map (·.past)) = .ok (xs.map fun x => x.banned (logits x)) := by
  let items := (InputBatch.badWordsTokenIds (xs.map (·.request))).items
  have hitem : ∀ i words, (i, words) ∈ items →
      ∃ x, xs[i]? = some x ∧ x.request.samplingParams.badWordsTokenIds = words := by
    intro i words hmem
    obtain ⟨r, hr, hwords, -⟩ := mem_badWordsTokenIds.1 hmem
    rw [List.getElem?_map, Option.map_eq_some_iff] at hr
    obtain ⟨x, hx, rfl⟩ := hr
    exact ⟨x, hx, hwords⟩
  obtain ⟨out, hok, hlen, hrows⟩ := Result.foldlM_inv (l := items)
    (f := fun l (p : Nat × List (List Int)) =>
      applyBadWordsSingleBatch l p.1 p.2 (xs.map (·.past)))
    (I := fun done l => l.length = xs.length ∧ ∀ (i : Nat) x, xs[i]? = some x →
      l[i]? = some (if i ∈ done.map Prod.fst then x.banned (logits x) else logits x))
    (by
      rintro done ⟨i, words⟩ todo l hsplit ⟨hlen, hrows⟩
      have hmem : (i, words) ∈ items := hsplit ▸ List.mem_append_right _ List.mem_cons_self
      obtain ⟨x, hx, rfl⟩ := hitem i words hmem
      have hnew : i ∉ done.map Prod.fst := by
        have hnodup := (InputBatch.badWordsTokenIds (xs.map (·.request))).nodup
        rw [show (InputBatch.badWordsTokenIds (xs.map (·.request))).items = _ from hsplit,
          List.map_append, List.map_cons] at hnodup
        exact Result.notMem_done rfl hnodup
      have hrow := hrows i x hx
      rw [if_neg hnew] at hrow
      refine ⟨_, applyBadWordsSingleBatch_ok (by rw [List.getElem?_map, hx]; rfl) hrow
        (hlogits x (List.mem_of_getElem? hx)), by rw [List.length_set, hlen], fun j y hy => ?_⟩
      rw [List.map_append, List.map_singleton]
      by_cases hij : i = j
      · subst hij
        obtain rfl : x = y := Option.some.inj (hx.symm.trans hy)
        rw [List.getElem?_set_self (List.getElem?_eq_some_iff.1 hrow).1,
          if_pos (List.mem_append_right _ List.mem_cons_self)]
      · have hmem' : j ∈ done.map Prod.fst ++ [i] ↔ j ∈ done.map Prod.fst :=
          List.mem_append.trans (or_iff_left fun h => hij (List.mem_singleton.1 h).symm)
        rw [List.getElem?_set_ne hij, hrows j y hy]
        simp only [hmem'])
    (show _ ∧ _ from ⟨List.length_map _, fun i x hx => by
      rw [List.getElem?_map, hx]
      rfl⟩)
  refine hok.trans (congrArg Except.ok (List.ext_getElem? fun i => ?_))
  rw [List.getElem?_map]
  cases hx : xs[i]? with
  | none => exact List.getElem?_eq_none (hlen ▸ List.getElem?_eq_none_iff.1 hx)
  | some x =>
    rw [hrows i x hx, Option.map_some]
    split
    · rfl
    · rename_i hnot
      refine congrArg some (Position.banned_of_nil ?_ _).symm
      by_contra hne
      refine hnot (List.mem_map.2 ⟨(i, _), mem_badWordsTokenIds.2 ⟨x.request, ?_, rfl, hne⟩, rfl⟩)
      rw [List.getElem?_map, hx]
      rfl

end BadWords

section Masks

def Position.maskedRow (x : Position vocabSize) (logits : Row) : Row :=
  logits.mapIdx fun token logit => if x.request.samplingParams.masked token then ⊥ else logit

theorem zipWith_map_range {α β γ : Type} (f : α → β → γ) (g : Nat → β) {xs : List α} {n : Nat}
    (h : xs.length = n) :
    List.zipWith f xs ((List.range n).map g) = xs.mapIdx fun i x => f x (g i) := by
  refine List.ext_getElem? fun i => ?_
  rw [List.getElem?_zipWith, List.getElem?_mapIdx, List.getElem?_map]
  by_cases hi : i < n
  · rw [List.getElem?_range hi]
    cases xs[i]? <;> rfl
  · rw [List.getElem?_eq_none (by omega)]
    rfl

theorem maskedFill_ok {xs : List (Position vocabSize)} {logits : Position vocabSize → Row}
    (hlogits : ∀ x ∈ xs, (logits x).length = vocabSize) :
    maskedFill (xs.map logits) (xs.map fun x => InputBatch.allowedTokenIdsMask x.request) =
      xs.map fun x => x.maskedRow (logits x) := by
  rw [maskedFill, List.zipWith_map, List.zipWith_self]
  exact List.map_congr_left fun x hx => zipWith_map_range _ _ (hlogits x hx)

theorem Position.maskedRow_of_nil {x : Position vocabSize}
    (h : x.request.samplingParams.allowedTokenIds = []) (logits : Row) :
    x.maskedRow logits = logits := by
  refine List.ext_getElem? fun token => ?_
  rw [maskedRow, List.getElem?_mapIdx, SamplingParams.masked, h]
  simp

end Masks

section Batch

variable {reqs : List (CachedRequest vocabSize)} {xs : List (Position vocabSize)}
  {logits : Position vocabSize → Row}

theorem noPenalties_iff : InputBatch.noPenalties reqs = true ↔ ∀ r ∈ reqs,
    r.samplingParams.presencePenalty = 0 ∧ r.samplingParams.frequencyPenalty = 0 ∧
      r.samplingParams.repetitionPenalty = 1 := by
  simp [InputBatch.noPenalties, and_assoc]

theorem badWordsTokenIds_isEmpty :
    (InputBatch.badWordsTokenIds reqs).items.isEmpty = true ↔
      ∀ r ∈ reqs, r.samplingParams.badWordsTokenIds = [] := by
  rw [List.isEmpty_iff, List.eq_nil_iff_forall_not_mem]
  constructor
  · intro h r hr
    by_contra hne
    obtain ⟨i, hi⟩ := List.mem_iff_getElem?.1 hr
    exact h (i, _) (mem_badWordsTokenIds.2 ⟨r, hi, rfl, hne⟩)
  · rintro h ⟨i, words⟩ hmem
    obtain ⟨r, hr, rfl, hne⟩ := mem_badWordsTokenIds.1 hmem
    exact hne (h r (List.mem_of_getElem? hr))

theorem applyAllowedTokenIds_ok (hlogits : ∀ x ∈ xs, (logits x).length = vocabSize) :
    (InputBatch.makeSamplingMetadata (xs.map (·.request))).applyAllowedTokenIds (xs.map logits) =
      xs.map fun x => x.maskedRow (logits x) := by
  unfold SamplingMetadata.applyAllowedTokenIds InputBatch.makeSamplingMetadata
  dsimp only
  split
  · rename_i hmask
    rw [ite_eq_left_iff] at hmask
    have hall := not_imp_comm.1 hmask nofun
    refine List.map_congr_left fun x hx => (Position.maskedRow_of_nil ?_ _).symm
    exact List.isEmpty_iff.1 (List.all_eq_true.1 hall _ (List.mem_map_of_mem hx))
  · rename_i mask hmask
    split at hmask
    · cases hmask
    · cases hmask
      rw [List.map_map]
      exact maskedFill_ok hlogits

def Position.penalized (x : Position vocabSize) (logits : Row) : Row :=
  logits.mapIdx (x.request.samplingParams.penalize x.request.promptTokenIds x.past)

theorem penalized_of_noPenalties (hno : InputBatch.noPenalties reqs = true)
    (hreqs : ∀ x ∈ xs, x.request ∈ reqs) :
    xs.map (fun x => x.penalized (logits x)) = xs.map logits := by
  refine List.map_congr_left fun x hx => List.ext_getElem? fun token => ?_
  obtain ⟨hpresence, hfrequency, hrepetition⟩ := noPenalties_iff.1 hno _ (hreqs x hx)
  rw [Position.penalized, List.getElem?_mapIdx]
  cases (logits x)[token]? with
  | none => rfl
  | some logit =>
    exact congrArg some
      (SamplingParams.penalize_default hpresence hfrequency hrepetition _ _ _ _)

theorem hasBadWords_iff : (InputBatch.makeSamplingMetadata reqs).hasBadWords = false ↔
    ∀ r ∈ reqs, r.samplingParams.badWordsTokenIds = [] := by
  rw [SamplingMetadata.hasBadWords, Bool.not_eq_false']
  exact badWordsTokenIds_isEmpty

theorem banned_of_hasBadWords
    (h : (InputBatch.makeSamplingMetadata (xs.map (·.request))).hasBadWords = false) :
    xs.map (fun x => x.banned (logits x)) = xs.map logits :=
  List.map_congr_left fun _ hx =>
    Position.banned_of_nil (hasBadWords_iff.1 h _ (List.mem_map_of_mem hx)) _

theorem Position.processed_eq (x : Position vocabSize) :
    x.penalized (x.banned (x.maskedRow x.logits)) = x.processed := by
  refine List.ext_getElem? fun token => ?_
  simp only [penalized, banned, maskedRow, processed, List.getElem?_mapIdx, Option.map_map]
  refine congrArg (Option.map · _) (funext fun logit => ?_)
  simp only [Function.comp_apply]
  cases x.request.samplingParams.masked token <;>
    cases x.request.samplingParams.forbids x.past token <;> simp

theorem Position.processed_eq' (x : Position vocabSize) :
    x.banned (x.maskedRow (x.penalized x.logits)) = x.processed := by
  refine List.ext_getElem? fun token => ?_
  simp only [penalized, banned, maskedRow, processed, List.getElem?_mapIdx, Option.map_map]
  refine congrArg (Option.map · _) (funext fun logit => ?_)
  simp only [Function.comp_apply]
  cases x.request.samplingParams.masked token <;>
    cases x.request.samplingParams.forbids x.past token <;> simp

theorem Position.length_maskedRow (x : Position vocabSize) (logits : Row) :
    (x.maskedRow logits).length = logits.length := List.length_mapIdx

theorem Position.length_banned (x : Position vocabSize) (logits : Row) :
    (x.banned logits).length = logits.length := List.length_mapIdx

theorem Position.length_penalized (x : Position vocabSize) (logits : Row) :
    (x.penalized logits).length = logits.length := List.length_mapIdx

theorem outputTokenIds_of_any
    (h : (InputBatch.makeSamplingMetadata reqs).anyPenaltiesOrBadWords = true) :
    (InputBatch.makeSamplingMetadata reqs).outputTokenIds = reqs.map (·.outputTokenIds) := by
  rw [SamplingMetadata.anyPenaltiesOrBadWords, Bool.or_comm] at h
  exact if_pos h

theorem applyAllPenalties_make (hxs : ∀ x ∈ xs, x.Valid)
    (hlogits : ∀ x ∈ xs, (logits x).length = vocabSize) (promptLen : Nat) :
    applyAllPenalties vocabSize (xs.map logits)
      (xs.map fun x => padTo promptLen vocabSize x.request.promptTokenIds)
      (xs.map (·.request.samplingParams.presencePenalty))
      (xs.map (·.request.samplingParams.frequencyPenalty))
      (xs.map (·.request.samplingParams.repetitionPenalty)) (xs.map (·.past)) =
    .ok (xs.map fun x => x.penalized (logits x)) :=
  applyAllPenalties_ok hxs promptLen hlogits

end Batch

def best (row : Row) : Nat :=
  match Numpy.argmax row with
  | .ok token => token
  | .error _ => 0

theorem argmax_eq_best {row : Row} (h : row ≠ []) :
    Numpy.argmax row = .ok (best row) ∧ best row < row.length := by
  obtain ⟨token, hok, hlt⟩ := Numpy.argmax_ok h
  rw [best, hok]
  exact ⟨rfl, hlt⟩

def Position.next (x : Position vocabSize) : Int := best x.processed

theorem Position.length_processed (x : Position vocabSize) :
    x.processed.length = x.logits.length := List.length_mapIdx

theorem Position.Valid.processed_ne_nil {x : Position vocabSize} (hx : x.Valid)
    (hvocab : 0 < vocabSize) : x.processed ≠ [] :=
  List.ne_nil_of_length_pos (x.length_processed.trans hx.logits |>.symm ▸ hvocab)

theorem Position.Valid.next {x : Position vocabSize} (hx : x.Valid) (hvocab : 0 < vocabSize) :
    0 ≤ x.next ∧ x.next < vocabSize := by
  have hlen : x.processed.length = vocabSize := x.length_processed.trans hx.logits
  have hlt := (argmax_eq_best (hx.processed_ne_nil hvocab)).2
  rw [Position.next]
  omega

namespace Sampler

variable {xs : List (Position vocabSize)} {predictBonusToken : Bool}

def PastOf (predictBonusToken : Bool) (x : Position vocabSize) : Prop :=
  x.past = if predictBonusToken then x.request.outputTokenIds ++ x.request.specTokenIds
    else x.request.outputTokenIds

theorem processorTokenIds_ok (hpast : ∀ x ∈ xs, PastOf predictBonusToken x)
    (hany : (InputBatch.makeSamplingMetadata (xs.map (·.request))).anyPenaltiesOrBadWords = true) :
    processorTokenIds (InputBatch.makeSamplingMetadata (xs.map (·.request))) predictBonusToken =
      xs.map (·.past) := by
  rw [processorTokenIds, hany, outputTokenIds_of_any hany, List.map_map, Bool.and_true]
  split
  · rename_i hpredict
    show combineOutputsWithSpecTokens _ (some _) = _
    rw [combineOutputsWithSpecTokens, List.map_map, List.zipWith_map, List.zipWith_self]
    refine List.map_congr_left fun x hx => ?_
    rw [hpast x hx, if_pos hpredict]
    simp only [Function.comp_apply]
    split
    · rename_i hnil
      rw [hnil, List.append_nil]
    · rfl
  · rename_i hpredict
    refine List.map_congr_left fun x hx => ?_
    rw [hpast x hx, if_neg hpredict]
    rfl

theorem applyLogitsProcessors_ok (hxs : ∀ x ∈ xs, x.Valid)
    (hpast : ∀ x ∈ xs, PastOf predictBonusToken x) :
    applyLogitsProcessors vocabSize (InputBatch.makeSamplingMetadata (xs.map (·.request)))
      predictBonusToken (xs.map (·.logits)) = .ok (xs.map (·.processed)) := by
  have hlen : ∀ x ∈ xs, (x.maskedRow x.logits).length = vocabSize := fun x hx =>
    (x.length_maskedRow _).trans (hxs x hx).logits
  have hlen' : ∀ x ∈ xs, (x.banned (x.maskedRow x.logits)).length = vocabSize := fun x hx =>
    (x.length_banned _).trans (hlen x hx)
  have hhistory : (InputBatch.makeSamplingMetadata
      (xs.map (·.request))).anyPenaltiesOrBadWords = true →
      processorTokenIds (InputBatch.makeSamplingMetadata (xs.map (·.request))) predictBonusToken =
        xs.map (·.past) := processorTokenIds_ok hpast
  unfold applyLogitsProcessors
  rw [applyAllowedTokenIds_ok fun x hx => (hxs x hx).logits]
  dsimp only
  generalize processorTokenIds _ predictBonusToken = history at hhistory
  have hbans : (if (InputBatch.makeSamplingMetadata (xs.map (·.request))).hasBadWords then
      applyBadWords (xs.map fun x => x.maskedRow x.logits)
        (InputBatch.makeSamplingMetadata (xs.map (·.request))).badWordsTokenIds history
      else .ok (xs.map fun x => x.maskedRow x.logits)) =
      .ok (xs.map fun x => x.banned (x.maskedRow x.logits)) := by
    split
    · rename_i hbad
      rw [hhistory (by rw [SamplingMetadata.anyPenaltiesOrBadWords, hbad]; rfl)]
      exact applyBadWords_ok hlen
    · rename_i hbad
      rw [banned_of_hasBadWords (Bool.not_eq_true _ ▸ hbad)]
  have hpenalties : (InputBatch.makeSamplingMetadata (xs.map (·.request))).applyPenalties vocabSize
      (xs.map fun x => x.banned (x.maskedRow x.logits)) history =
      .ok (xs.map (·.processed)) := by
    have hprocessed : xs.map (·.processed) =
        xs.map fun x => x.penalized (x.banned (x.maskedRow x.logits)) :=
      List.map_congr_left fun x _ => x.processed_eq.symm
    rw [hprocessed]
    unfold SamplingMetadata.applyPenalties
    split
    · rename_i hno
      rw [penalized_of_noPenalties hno fun x hx => List.mem_map_of_mem hx]
    · rename_i hno
      have hprompt : (InputBatch.makeSamplingMetadata (xs.map (·.request))).promptTokenIds =
          some (InputBatch.makePromptTokenIdsTensor (xs.map (·.request))) := if_neg hno
      obtain ⟨promptLen, hpad⟩ := exists_padTo ((xs.map (·.request)).map (·.promptTokenIds)) vocabSize
      rw [hprompt, InputBatch.makePromptTokenIdsTensor, hpad, hhistory (by
        rw [SamplingMetadata.anyPenaltiesOrBadWords, Bool.eq_false_of_not_eq_true hno]
        exact Bool.or_true _)]
      have h := applyAllPenalties_make hxs hlen' promptLen
      simp only [InputBatch.makeSamplingMetadata, List.map_map] at h ⊢
      exact h
  split
  · rename_i hbad
    rw [if_pos hbad] at hbans
    rw [hbans]
    exact hpenalties
  · rename_i hbad
    rw [if_neg hbad] at hbans
    rw [hbans]
    exact hpenalties

theorem greedySample_ok (hvocab : 0 < vocabSize) (hxs : ∀ x ∈ xs, x.Valid) :
    greedySample (xs.map (·.processed)) = .ok (xs.map (·.next)) := by
  unfold greedySample
  rw [List.mapM_map]
  induction xs with
  | nil => rfl
  | cons x xs ih =>
    obtain ⟨hx, hxs⟩ := List.forall_mem_cons.1 hxs
    rw [List.mapM_cons, ih hxs, Function.comp_apply,
      (argmax_eq_best (hx.processed_ne_nil hvocab)).1]
    rfl

theorem forward_ok (hvocab : 0 < vocabSize) (hxs : ∀ x ∈ xs, x.Valid)
    (hpast : ∀ x ∈ xs, PastOf predictBonusToken x) :
    forward vocabSize (xs.map (·.logits)) (InputBatch.makeSamplingMetadata (xs.map (·.request)))
      predictBonusToken = .ok (xs.map (·.next)) := by
  rw [forward, applyLogitsProcessors_ok hxs hpast]
  exact greedySample_ok hvocab hxs

end Sampler

end Vllm.Sample
