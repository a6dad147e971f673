import Vllm.Lib.Segments
import Vllm.LogitsProcessorLaws
import Vllm.Sampler

/-! The stop tokens of a request are masked until it has its minimum of tokens. The rows of its
drafts are masked by their positions, the row of its bonus token by what has been committed. -/

namespace Vllm.Worker

open Sample (Logit)
open Segments

variable {F : Type}

/-- `logits.index_put_((rows, toks), -inf)`, for one pair of indices. -/
def maskLogit (logits : List Sample.Row) (p : Nat × Nat) : Result (List Sample.Row) := do
  let row ← Result.getItem logits p.1
  if p.2 < row.length then .ok (logits.set p.1 (row.set p.2 ⊥)) else .error .indexError

def indexPut (logits : List Sample.Row) (slice : List Nat × List Nat) : Result (List Sample.Row) :=
  (slice.1.zip slice.2).foldlM maskLogit logits

structure MinToks where
  minTokens : Nat
  outTokIds : List Token
  stopTokIds : List Nat
  deriving DecidableEq

structure MinTokensLogitsProcessor where
  minToks : Dict Nat MinToks
  logitsSlice : List Nat × List Nat

namespace MinTokensLogitsProcessor

def init : MinTokensLogitsProcessor := ⟨.empty, [], []⟩

def addRequest : NewState F MinToks := fun params _ outputTokIds =>
  if params.minTokens = 0 ∨ params.minTokens ≤ outputTokIds.length then none
  else some ⟨params.minTokens, outputTokIds, params.allStopTokenIds⟩

def toRemove (minToks : Dict Nat MinToks) : List Nat :=
  (minToks.items.filter fun p => p.2.minTokens ≤ p.2.outTokIds.length).map Prod.fst

def sliceOf (minToks : Dict Nat MinToks) : List Nat × List Nat :=
  (minToks.items.flatMap fun p => List.replicate p.2.stopTokIds.length p.1,
    minToks.items.flatMap fun p => p.2.stopTokIds)

def updateState (p : MinTokensLogitsProcessor) (update : Option (BatchUpdate F)) :
    MinTokensLogitsProcessor :=
  let (minToks, needsUpdate) := reportDictUpdates addRequest p.minToks update
  let attained := toRemove minToks
  let minToks := attained.foldl Dict.erase minToks
  { minToks
    logitsSlice := if needsUpdate || !attained.isEmpty then sliceOf minToks else p.logitsSlice }

def apply (p : MinTokensLogitsProcessor) (logits : List Sample.Row) : Result (List Sample.Row) :=
  if p.minToks.size = 0 then .ok logits else indexPut logits p.logitsSlice

def draftPairs (numDraftTokens : List Nat) (entry : Nat × MinToks) :
    Result (List Nat × List Nat) := do
  let (reqIdx, e) := entry
  let remaining := e.minTokens - e.outTokIds.length
  let nMask := min remaining (← Result.getItem numDraftTokens reqIdx)
  if 0 < nMask then do
    let offset ← Result.getItem (0 :: cumsum 0 numDraftTokens) reqIdx
    let rowIndices := (List.range nMask).map (offset + ·)
    return (rowIndices.flatMap (List.replicate e.stopTokIds.length),
      (List.replicate nMask e.stopTokIds).flatten)
  else return ([], [])

def applyWithSpecDecode (p : MinTokensLogitsProcessor) (logits : List Sample.Row)
    (numDraftTokens : List Nat) : Result (List Sample.Row) :=
  if p.minToks.size = 0 then .ok logits
  else do
    let entries := p.minToks.items.filter fun q => q.2.stopTokIds ≠ []
    let pairs ← entries.mapM (draftPairs numDraftTokens)
    indexPut logits (pairs.flatMap Prod.fst, pairs.flatMap Prod.snd)

end MinTokensLogitsProcessor

section Updates

variable {T : Type} {newState : NewState F T}

theorem fst_reportDictUpdates (entries : Dict Nat T) (update : Option (BatchUpdate F)) :
    (reportDictUpdates newState entries update).1 = processDictUpdates newState entries update := by
  have hadded : ∀ (as : List (AddedRequest F)) (st : Dict Nat T × Bool),
      (as.foldl (addedUpdates newState) st).1 = as.foldl (dictAdded newState) st.1 := by
    intro as
    induction as with
    | nil => exact fun _ => rfl
    | cons a as ih => exact fun st => ih _
  have hremoved : ∀ (is : List Nat) (st : Dict Nat T × Bool),
      (is.foldl removedUpdates st).1 = is.foldl Dict.erase st.1 := by
    intro is
    induction is with
    | nil => exact fun _ => rfl
    | cons i is ih => exact fun st => ih _
  have hmoved : ∀ (ms : List MovedRequest) (st : Dict Nat T × Bool),
      (ms.foldl movedUpdates st).1 = ms.foldl dictMoved st.1 := by
    intro ms
    induction ms with
    | nil => exact fun _ => rfl
    | cons m ms ih => exact fun st => ih _
  cases update with
  | none => rfl
  | some u =>
    unfold reportDictUpdates processDictUpdates
    dsimp only
    rw [hadded]
    split
    · exact hadded u.added (entries, false)
    · rw [hmoved, hremoved, hadded]

theorem foldl_unchanged {A : Type} {g : Dict Nat T × Bool → A → Dict Nat T × Bool}
    (hg : ∀ st a, (g st a).2 = false → g st a = st) {as : List A} {st : Dict Nat T × Bool}
    (h : (as.foldl g st).2 = false) : as.foldl g st = st := by
  induction as generalizing st with
  | nil => rfl
  | cons a as ih =>
    have hrest := ih h
    have hfirst : (g st a).2 = false := by
      rw [List.foldl_cons, hrest] at h
      exact h
    rw [List.foldl_cons, hrest, hg st a hfirst]

theorem get?_of_contains {d : Dict Nat T} {i : Nat} (h : d.contains i = false) :
    d.get? i = none :=
  Option.not_isSome_iff_eq_none.1 (Bool.eq_false_iff.1 h)

theorem addedUpdates_unchanged (st : Dict Nat T × Bool) (a : AddedRequest F)
    (h : (addedUpdates newState st a).2 = false) : addedUpdates newState st a = st := by
  unfold addedUpdates at h ⊢
  simp only [Bool.or_eq_false_iff, Option.isSome_eq_false_iff, Option.isNone_iff_eq_none] at h
  obtain ⟨⟨hflag, hstate⟩, hindex⟩ := h
  unfold dictAdded
  rw [hstate, hflag, Option.isSome_none, hindex]
  exact Prod.ext (Dict.erase_eq_self (get?_of_contains hindex)) hflag.symm

theorem removedUpdates_unchanged (st : Dict Nat T × Bool) (i : Nat)
    (h : (removedUpdates st i).2 = false) : removedUpdates st i = st := by
  obtain ⟨hflag, hindex⟩ := Bool.or_eq_false_iff.1 h
  exact Prod.ext (Dict.erase_eq_self (get?_of_contains hindex)) (h.trans hflag.symm)

theorem movedUpdates_unchanged (st : Dict Nat T × Bool) (m : MovedRequest)
    (h : (movedUpdates st m).2 = false) : movedUpdates st m = st := by
  obtain ⟨hleft, hb⟩ := Bool.or_eq_false_iff.1 h
  obtain ⟨hflag, ha⟩ := Bool.or_eq_false_iff.1 hleft
  have ha := get?_of_contains ha
  have hb := get?_of_contains hb
  rw [Dict.erase_eq_self ha] at hb
  refine Prod.ext ?_ (h.trans hflag.symm)
  show dictMoved st.1 m = st.1
  unfold dictMoved
  dsimp only
  rw [ha, Dict.erase_eq_self ha, hb, Dict.erase_eq_self hb]

theorem reportDictUpdates_unchanged {entries : Dict Nat T} {update : Option (BatchUpdate F)}
    (h : (reportDictUpdates newState entries update).2 = false) :
    reportDictUpdates newState entries update = (entries, false) := by
  cases update with
  | none => rfl
  | some u =>
    unfold reportDictUpdates at h ⊢
    dsimp only at h ⊢
    split at h
    · rw [if_pos ‹_›]
      exact foldl_unchanged addedUpdates_unchanged h
    · rw [if_neg ‹_›]
      have hmoved := foldl_unchanged movedUpdates_unchanged h
      rw [hmoved] at h
      have hremoved := foldl_unchanged removedUpdates_unchanged h
      rw [hremoved] at h
      rw [hmoved, hremoved]
      exact foldl_unchanged addedUpdates_unchanged h

namespace MinTokensLogitsProcessor

def dropAttained (minToks : Dict Nat MinToks) : Dict Nat MinToks :=
  (toRemove minToks).foldl Dict.erase minToks

theorem minToks_updateState (p : MinTokensLogitsProcessor) (update : Option (BatchUpdate F)) :
    (p.updateState update).minToks =
      dropAttained (processDictUpdates addRequest p.minToks update) := by
  rw [← fst_reportDictUpdates]
  rfl

theorem slice_updateState {p : MinTokensLogitsProcessor} (h : p.logitsSlice = sliceOf p.minToks)
    (update : Option (BatchUpdate F)) :
    (p.updateState update).logitsSlice = sliceOf (p.updateState update).minToks := by
  rw [minToks_updateState, ← fst_reportDictUpdates]
  have hslice : (p.updateState update).logitsSlice =
      if (reportDictUpdates addRequest p.minToks update).2 ||
          !(toRemove (reportDictUpdates addRequest p.minToks update).1).isEmpty then
        sliceOf (dropAttained (reportDictUpdates addRequest p.minToks update).1)
      else p.logitsSlice := rfl
  rw [hslice]
  split
  · rfl
  · rename_i hflag
    obtain ⟨hreport, hattained⟩ := Bool.or_eq_false_iff.1 (Bool.eq_false_iff.2 hflag)
    rw [Bool.not_eq_false', List.isEmpty_iff] at hattained
    rw [dropAttained, hattained, reportDictUpdates_unchanged hreport]
    exact h

end MinTokensLogitsProcessor

end Updates

section IndexPut

theorem maskLogits_ok (logits : List Sample.Row) (pairs : List (Nat × Nat))
    (h : ∀ p ∈ pairs, ∃ row, logits[p.1]? = some row ∧ p.2 < row.length) :
    ∃ out, pairs.foldlM maskLogit logits = .ok out ∧
      ∀ r : Nat, out[r]? = logits[r]?.map fun row =>
        row.mapIdx fun t x => if (r, t) ∈ pairs then ⊥ else x := by
  induction pairs generalizing logits with
  | nil =>
    refine ⟨logits, rfl, fun r => ?_⟩
    cases logits[r]? with
    | none => rfl
    | some row => simp [List.mapIdx_eq_zipIdx_map]
  | cons p pairs ih =>
    obtain ⟨⟨row, hrow, hlt⟩, h⟩ := List.forall_mem_cons.1 h
    have hbound := (List.getElem?_eq_some_iff.1 hrow).1
    have hset : ∀ r : Nat, (logits.set p.1 (row.set p.2 ⊥))[r]? = logits[r]?.map fun row =>
        if p.1 = r then row.set p.2 ⊥ else row := by
      intro r
      rw [List.getElem?_set]
      by_cases hr : p.1 = r
      · subst hr
        rw [if_pos rfl, if_pos hbound, hrow]
        simp
      · simp [hr]
    obtain ⟨out, hok, hout⟩ := ih (logits.set p.1 (row.set p.2 ⊥)) (by
      intro q hq
      obtain ⟨row', hrow', hlt'⟩ := h q hq
      refine ⟨if p.1 = q.1 then row'.set p.2 ⊥ else row', ?_, ?_⟩
      · rw [hset, hrow']
        rfl
      · split
        · rwa [List.length_set]
        · exact hlt')
    refine ⟨out, ?_, fun r => ?_⟩
    · rw [List.foldlM_cons, maskLogit, Result.getItem_eq_ok.2 hrow, Result.ok_bind, if_pos hlt]
      exact hok
    · rw [hout, hset, Option.map_map]
      congr 1
      funext row'
      apply List.ext_getElem?
      intro t
      rw [Function.comp_apply, List.getElem?_mapIdx, List.getElem?_mapIdx]
      by_cases hr : p.1 = r
      · subst hr
        rw [if_pos rfl, List.getElem?_set]
        by_cases ht : p.2 = t
        · subst ht
          by_cases hin : p.2 < row'.length <;> simp [hin]
        · simp [ht, Prod.ext_iff, Ne.symm ht]
      · simp [hr, Prod.ext_iff, Ne.symm hr]

theorem valid_of_maskLogits {logits out : List Sample.Row} {pairs : List (Nat × Nat)}
    (h : pairs.foldlM maskLogit logits = .ok out) :
    ∀ p ∈ pairs, ∃ row, logits[p.1]? = some row ∧ p.2 < row.length := by
  induction pairs generalizing logits with
  | nil => exact nofun
  | cons p pairs ih =>
    rw [List.foldlM_cons] at h
    simp only [maskLogit, Result.bind_eq_ok, Result.getItem_eq_ok] at h
    obtain ⟨logits', ⟨row, hrow, hok⟩, h⟩ := h
    split at hok
    · rename_i hlt
      cases hok
      refine List.forall_mem_cons.2 ⟨⟨row, hrow, hlt⟩, fun q hq => ?_⟩
      obtain ⟨row', hrow', hlt'⟩ := ih h q hq
      rw [List.getElem?_set] at hrow'
      split at hrow'
      · rename_i hq
        split at hrow'
        · cases hrow'
          rw [List.length_set] at hlt'
          exact ⟨row, hq ▸ hrow, hlt'⟩
        · cases hrow'
      · exact ⟨row', hrow', hlt'⟩
    · cases hok

end IndexPut

section Pairs

variable {i r tok d : Nat} {e : MinToks} {numDraftTokens : List Nat}

theorem zip_replicate (r : Nat) (toks : List Nat) :
    (List.replicate toks.length r).zip toks = toks.map (r, ·) := by
  induction toks with
  | nil => rfl
  | cons tok toks ih =>
    rw [List.length_cons, List.replicate_succ, List.zip_cons_cons, ih, List.map_cons]

namespace MinTokensLogitsProcessor

theorem mem_sliceOf {minToks : Dict Nat MinToks} :
    (r, tok) ∈ (sliceOf minToks).1.zip (sliceOf minToks).2 ↔
      ∃ e, minToks.get? r = some e ∧ tok ∈ e.stopTokIds := by
  rw [sliceOf, List.zip_eq_zipWith, zipWith_flatMap fun p _ => List.length_replicate]
  simp only [← List.zip_eq_zipWith, zip_replicate, List.mem_flatMap, List.mem_map, Prod.mk.injEq,
    Dict.get?_eq_some]
  constructor
  · rintro ⟨⟨r', e⟩, hmem, tok', htok, rfl, rfl⟩
    exact ⟨e, hmem, htok⟩
  · rintro ⟨e, hmem, htok⟩
    exact ⟨(r, e), hmem, tok, htok, rfl, rfl⟩

def Masks (numDraftTokens : List Nat) (p : Nat × MinToks) (r tok : Nat) : Prop :=
  ∃ d, numDraftTokens[p.1]? = some d ∧ tok ∈ p.2.stopTokIds ∧
    ∃ j < min (p.2.minTokens - p.2.outTokIds.length) d, r = (numDraftTokens.take p.1).sum + j

theorem draftPairs_ok (hd : numDraftTokens[i]? = some d) :
    ∃ q, draftPairs numDraftTokens (i, e) = .ok q ∧ q.1.length = q.2.length ∧
      ∀ r tok, (r, tok) ∈ q.1.zip q.2 ↔ Masks numDraftTokens (i, e) r tok := by
  have hi : i ≤ numDraftTokens.length := Nat.le_of_lt (List.getElem?_eq_some_iff.1 hd).1
  have hoffset : (0 :: cumsum 0 numDraftTokens)[i]? = some (0 + (numDraftTokens.take i).sum) :=
    getElem?_cons_cumsum hi
  rw [Nat.zero_add] at hoffset
  unfold draftPairs
  dsimp only
  rw [Result.getItem_eq_ok.2 hd, Result.ok_bind]
  split
  · rw [Result.getItem_eq_ok.2 hoffset, Result.ok_bind]
    refine ⟨_, rfl, ?_, fun r tok => ?_⟩
    · simp [List.length_flatMap, Function.comp_def]
    · have hflat : (List.replicate (min (e.minTokens - e.outTokIds.length) d) e.stopTokIds).flatten =
          ((List.range (min (e.minTokens - e.outTokIds.length) d)).map
            ((numDraftTokens.take i).sum + ·)).flatMap fun _ => e.stopTokIds := by
        simp [List.flatMap, Function.comp_def]
      rw [hflat, List.zip_eq_zipWith, zipWith_flatMap fun _ _ => List.length_replicate]
      simp only [← List.zip_eq_zipWith, zip_replicate, List.mem_flatMap, List.mem_map,
        Prod.mk.injEq, List.mem_range]
      constructor
      · rintro ⟨r', ⟨j, hj, rfl⟩, tok', htok, rfl, rfl⟩
        exact ⟨d, hd, htok, j, hj, rfl⟩
      · rintro ⟨d', hd', htok, j, hj, rfl⟩
        cases hd.symm.trans hd'
        exact ⟨_, ⟨j, hj, rfl⟩, tok, htok, rfl, rfl⟩
  · rename_i hzero
    refine ⟨_, rfl, rfl, fun r tok => ?_⟩
    constructor
    · exact nofun
    · rintro ⟨d', hd', -, j, hj, -⟩
      cases hd.symm.trans hd'
      exact absurd (Nat.zero_lt_of_lt hj) hzero

theorem mapM_draftPairs_ok (entries : List (Nat × MinToks))
    (h : ∀ p ∈ entries, ∃ d, numDraftTokens[p.1]? = some d) :
    ∃ qs, entries.mapM (draftPairs numDraftTokens) = .ok qs ∧
      (qs.flatMap Prod.fst).length = (qs.flatMap Prod.snd).length ∧
      ∀ r tok, (r, tok) ∈ (qs.flatMap Prod.fst).zip (qs.flatMap Prod.snd) ↔
        ∃ p ∈ entries, Masks numDraftTokens p r tok := by
  induction entries with
  | nil => exact ⟨[], rfl, rfl, by simp⟩
  | cons p entries ih =>
    obtain ⟨⟨d, hd⟩, h⟩ := List.forall_mem_cons.1 h
    obtain ⟨q, hq, hlen, hmem⟩ := draftPairs_ok (i := p.1) (e := p.2) hd
    obtain ⟨qs, hqs, hlens, hmems⟩ := ih h
    refine ⟨q :: qs, ?_, ?_, fun r tok => ?_⟩
    · rw [List.mapM_cons, hq, Result.ok_bind, hqs]
      rfl
    · rw [List.flatMap_cons, List.flatMap_cons, List.length_append, List.length_append, hlen, hlens]
    · rw [List.flatMap_cons, List.flatMap_cons, List.zip_append hlen, List.mem_append, hmem, hmems,
        List.exists_mem_cons_iff]

theorem apply_eq {p : MinTokensLogitsProcessor} (h : p.logitsSlice = sliceOf p.minToks)
    (logits : List Sample.Row) :
    p.apply logits = ((sliceOf p.minToks).1.zip (sliceOf p.minToks).2).foldlM maskLogit logits := by
  unfold apply
  split
  · rename_i hsize
    rw [sliceOf, List.length_eq_zero_iff.1 hsize]
    rfl
  · rw [h]
    rfl

theorem applyWithSpecDecode_eq {p : MinTokensLogitsProcessor}
    (h : ∀ i e, p.minToks.get? i = some e → ∃ d, numDraftTokens[i]? = some d) :
    ∃ pairs : List (Nat × Nat),
      (∀ logits, p.applyWithSpecDecode logits numDraftTokens = pairs.foldlM maskLogit logits) ∧
      ∀ r tok, (r, tok) ∈ pairs ↔
        ∃ i e, p.minToks.get? i = some e ∧ Masks numDraftTokens (i, e) r tok := by
  obtain ⟨qs, hqs, -, hmem⟩ := mapM_draftPairs_ok
    (p.minToks.items.filter fun q => q.2.stopTokIds ≠ [])
    fun q hq => h q.1 q.2 (Dict.get?_eq_some.2 (List.mem_of_mem_filter hq))
  refine ⟨(qs.flatMap Prod.fst).zip (qs.flatMap Prod.snd), fun logits => ?_, fun r tok => ?_⟩
  · unfold applyWithSpecDecode
    dsimp only
    split
    · rename_i hsize
      rw [List.length_eq_zero_iff.1 hsize] at hqs
      cases hqs
      rfl
    · rw [hqs]
      rfl
  · rw [hmem]
    constructor
    · rintro ⟨q, hq, hmasks⟩
      exact ⟨q.1, q.2, Dict.get?_eq_some.2 (List.mem_of_mem_filter hq), hmasks⟩
    · rintro ⟨i, e, he, hmasks⟩
      refine ⟨(i, e), List.mem_filter.2 ⟨Dict.get?_eq_some.1 he, ?_⟩, hmasks⟩
      obtain ⟨-, -, htok, -⟩ := hmasks
      exact decide_eq_true (List.ne_nil_of_mem htok)

end MinTokensLogitsProcessor

end Pairs

end Vllm.Worker
