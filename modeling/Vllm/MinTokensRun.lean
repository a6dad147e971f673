import Vllm.LogitsProcessorRun
import Vllm.MinTokens

namespace Vllm.Worker

open Segments

variable {F : Type}

structure BatchRequest (F : Type) where
  params : SamplingParams F
  outputTokIds : List Token

namespace BatchRequest

def entry (r : BatchRequest F) : MinToks :=
  ⟨r.params.minTokens, r.outputTokIds, r.params.allStopTokenIds⟩

def maskStops (r : BatchRequest F) (n : Nat) (row : Sample.Row) : Sample.Row :=
  row.mapIdx fun tok x =>
    if n < r.params.minTokens ∧ tok ∈ r.params.allStopTokenIds then ⊥ else x

end BatchRequest

structure MinTokensRun (F : Type) where
  requests : Nat → Option (BatchRequest F)
  processor : MinTokensLogitsProcessor

/-- The tokens that come out of the last pass, and the changes of the batch before the next one. -/
structure MinTokensStep (F : Type) where
  accepted : Nat → List Token
  update : Option (BatchUpdate F)

namespace MinTokensRun

open BatchReplay

def init : MinTokensRun F := ⟨fun _ => none, .init⟩

def accept (x : MinTokensRun F) (accepted : Nat → List Token) : MinTokensRun F where
  requests i := (x.requests i).map fun r => { r with outputTokIds := r.outputTokIds ++ accepted i }
  processor :=
    { x.processor with
      minToks := x.processor.minToks.mapVals fun i e =>
        { e with outTokIds := e.outTokIds ++ accepted i } }

def broughtAlong : NewState F (BatchRequest F) := fun params _ out => some ⟨params, out⟩

def updateRequests (requests : Nat → Option (BatchRequest F)) :
    Option (BatchUpdate F) → Nat → Option (BatchRequest F)
  | none => requests
  | some u => replay none broughtAlong requests u.added u.removed u.moved

def step (x : MinTokensRun F) (s : MinTokensStep F) : MinTokensRun F where
  requests := updateRequests (x.accept s.accepted).requests s.update
  processor := (x.accept s.accepted).processor.updateState s.update

def Batch (x : MinTokensRun F) (numDraftTokens : List Nat) : Prop :=
  ∀ i, (x.requests i).isSome ↔ i < numDraftTokens.length

/-- In the row of each draft and in the row of the bonus token, the stop tokens are masked exactly
if the token would come before the minimum is attained. -/
def MaskedExactly (x : MinTokensRun F) (vocabSize : Nat) (numDraftTokens : List Nat) : Prop :=
  ∀ bonusLogits targetLogits : List Sample.Row,
    bonusLogits.length = numDraftTokens.length → targetLogits.length = numDraftTokens.sum →
    (∀ row ∈ bonusLogits ++ targetLogits, row.length = vocabSize) →
    ∃ bonus target, x.processor.apply bonusLogits = .ok bonus ∧
      x.processor.applyWithSpecDecode targetLogits numDraftTokens = .ok target ∧
      ∀ (i d : Nat) (r : BatchRequest F), numDraftTokens[i]? = some d → x.requests i = some r →
        (∀ j < d, target[(numDraftTokens.take i).sum + j]? =
          targetLogits[(numDraftTokens.take i).sum + j]?.map
            (r.maskStops (r.outputTokIds.length + j))) ∧
        bonus[i]? = bonusLogits[i]?.map (r.maskStops (r.outputTokIds.length + d))

/-- No request that lacks tokens can attain its minimum within the drafts, unless it has no stop
tokens, and its stop tokens are in the vocabulary. -/
def LacksBeyondDrafts (x : MinTokensRun F) (vocabSize : Nat) (numDraftTokens : List Nat) : Prop :=
  ∀ (i d : Nat) (r : BatchRequest F), numDraftTokens[i]? = some d → x.requests i = some r →
    r.outputTokIds.length < r.params.minTokens →
    (∀ tok ∈ r.params.allStopTokenIds, tok < vocabSize) ∧
    (r.params.allStopTokenIds = [] ∨ r.outputTokIds.length + d < r.params.minTokens)

structure Inv (x : MinTokensRun F) : Prop where
  entry : ∀ i e, x.processor.minToks.get? i = some e ↔
    ∃ r, x.requests i = some r ∧ r.outputTokIds.length < r.params.minTokens ∧ e = r.entry
  slice : x.processor.logitsSlice = MinTokensLogitsProcessor.sliceOf x.processor.minToks

def Tracks (e : Option MinToks) (r : Option (BatchRequest F)) : Prop :=
  (∃ q, r = some q ∧ e = some q.entry) ∨
    (e = none ∧ ∀ q ∈ r, q.params.minTokens ≤ q.outputTokIds.length)

theorem tracks_addRequest (params : SamplingParams F) (prompt : Option (List Token))
    (out : List Token) :
    Tracks (MinTokensLogitsProcessor.addRequest params prompt out)
      (some (⟨params, out⟩ : BatchRequest F)) := by
  unfold MinTokensLogitsProcessor.addRequest
  split
  · rename_i h
    refine .inr ⟨rfl, fun q hq => ?_⟩
    cases hq
    rcases h with h | h
    · show params.minTokens ≤ out.length
      rw [h]
      exact Nat.zero_le _
    · exact h
  · exact .inl ⟨_, rfl, rfl⟩

theorem get?_accept (x : MinTokensRun F) (accepted : Nat → List Token) (i : Nat) :
    (x.accept accepted).processor.minToks.get? i = (x.processor.minToks.get? i).map fun e =>
      { e with outTokIds := e.outTokIds ++ accepted i } :=
  Dict.get?_mapVals _ _ i

theorem Inv.accept {x : MinTokensRun F} (h : x.Inv) (accepted : Nat → List Token) (i : Nat) :
    Tracks ((x.accept accepted).processor.minToks.get? i) ((x.accept accepted).requests i) := by
  rw [get?_accept]
  cases hentry : x.processor.minToks.get? i with
  | some e =>
    obtain ⟨r, hr, -, rfl⟩ := (h.entry i e).1 hentry
    refine .inl ⟨{ r with outputTokIds := r.outputTokIds ++ accepted i }, ?_, rfl⟩
    show (x.requests i).map _ = _
    rw [hr]
    rfl
  | none =>
    refine .inr ⟨rfl, fun q hq => ?_⟩
    obtain ⟨r, hr, rfl⟩ := Option.map_eq_some_iff.1 (hq : (x.requests i).map _ = some q)
    by_contra hlt
    have hlacks : r.outputTokIds.length < r.params.minTokens := by
      have happend := Nat.not_le.1 hlt
      rw [List.length_append] at happend
      exact Nat.lt_of_add_right_lt happend
    rw [(h.entry i _).2 ⟨r, hr, hlacks, rfl⟩] at hentry
    cases hentry

theorem sliceOf_accept (x : MinTokensRun F) (accepted : Nat → List Token) :
    MinTokensLogitsProcessor.sliceOf (x.accept accepted).processor.minToks =
      MinTokensLogitsProcessor.sliceOf x.processor.minToks := by
  unfold MinTokensLogitsProcessor.sliceOf
  show (List.flatMap _ (List.map _ _), List.flatMap _ (List.map _ _)) = _
  rw [List.flatMap_map, List.flatMap_map]

theorem tracks_update {minToks : Dict Nat MinToks} {requests : Nat → Option (BatchRequest F)}
    {update : Option (BatchUpdate F)} (hu : ∀ u ∈ update, OneWay u.moved)
    (h : ∀ i, Tracks (minToks.get? i) (requests i)) (i : Nat) :
    Tracks ((processDictUpdates MinTokensLogitsProcessor.addRequest minToks update).get? i)
      (updateRequests requests update i) := by
  cases update with
  | none => exact h i
  | some u =>
    rw [get?_processDictUpdates minToks u (hu u rfl)]
    apply replay_rel
    · exact .inr ⟨rfl, nofun⟩
    · exact fun a _ => tracks_addRequest a.params a.promptTokIds a.outputTokIds
    · exact h

theorem mem_toRemove {minToks : Dict Nat MinToks} {i : Nat} :
    i ∈ MinTokensLogitsProcessor.toRemove minToks ↔
      ∃ e, minToks.get? i = some e ∧ e.minTokens ≤ e.outTokIds.length := by
  simp [MinTokensLogitsProcessor.toRemove, Dict.get?_eq_some]

theorem get?_dropAttained (minToks : Dict Nat MinToks) (i : Nat) (e : MinToks) :
    (MinTokensLogitsProcessor.dropAttained minToks).get? i = some e ↔
      minToks.get? i = some e ∧ e.outTokIds.length < e.minTokens := by
  rw [MinTokensLogitsProcessor.dropAttained, get?_foldl_erase, removed_apply]
  split
  · rename_i hmem
    obtain ⟨e', he', hle⟩ := mem_toRemove.1 hmem
    refine iff_of_false (fun h => by cases h) fun h => ?_
    cases he'.symm.trans h.1
    exact absurd h.2 (Nat.not_lt.2 hle)
  · rename_i hmem
    rw [iff_self_and]
    intro he
    by_contra hlt
    exact hmem (mem_toRemove.2 ⟨e, he, Nat.not_lt.1 hlt⟩)

theorem Inv.step {x : MinTokensRun F} (h : x.Inv) {s : MinTokensStep F}
    (hs : ∀ u ∈ s.update, OneWay u.moved) : (x.step s).Inv := by
  have htracks := tracks_update hs (h.accept s.accepted)
  constructor
  case entry =>
    intro i e
    show ((x.accept s.accepted).processor.updateState s.update).minToks.get? i = some e ↔ _
    rw [MinTokensLogitsProcessor.minToks_updateState, get?_dropAttained]
    constructor
    · rintro ⟨he, hlt⟩
      obtain ⟨q, hq, he'⟩ | ⟨hnone, -⟩ := htracks i
      · rw [he', Option.some_inj] at he
        subst he
        exact ⟨q, hq, hlt, rfl⟩
      · rw [hnone] at he
        cases he
    · rintro ⟨r, hr, hlt, rfl⟩
      obtain ⟨q, hq, he⟩ | ⟨-, hle⟩ := htracks i
      · cases hq.symm.trans hr
        exact ⟨he, hlt⟩
      · exact absurd hlt (Nat.not_lt.2 (hle r hr))
  case slice =>
    apply MinTokensLogitsProcessor.slice_updateState
    rw [sliceOf_accept]
    exact h.slice

theorem Inv.init : (init : MinTokensRun F).Inv where
  entry _ _ := iff_of_false nofun fun ⟨_, h, _⟩ => nomatch h
  slice := rfl

theorem Inv.run {x : MinTokensRun F} (h : x.Inv) {ss : List (MinTokensStep F)}
    (hss : ∀ s ∈ ss, ∀ u ∈ s.update, OneWay u.moved) : (ss.foldl MinTokensRun.step x).Inv := by
  induction ss generalizing x with
  | nil => exact h
  | cons s ss ih =>
    obtain ⟨hs, hss⟩ := List.forall_mem_cons.1 hss
    exact ih (h.step hs) hss

section Runner

variable {F32 G E : Type} [Zero F] [One F] [LT F] [DecidableLT F] [DecidableEq F]
  {c : InputBatchConfig F F32} {st : ModelRunner F F32 G E}

def ofRunner (st : ModelRunner F F32 G E) : Nat → Option (BatchRequest F) :=
  st.stateAt broughtAlong

theorem updateRequests_ofRunner (hc : c.isPoolingModel = false) (h : st.Settled c)
    {s : BatchStep F G E} (hs : s.Allowed c st) :
    ∃ u st', st.updateStates c s = .ok (u, st') ∧ st'.Settled c ∧
      (∀ u' ∈ u, OneWay u'.moved) ∧ updateRequests (ofRunner st) u = ofRunner st' := by
  obtain ⟨u, st', hok, hsettled, hfollow, hu⟩ := ModelRunner.updateStates_spec
    (w := ⟨none, broughtAlong, ofRunner st⟩) (A := fun _ => True) hc h
    (ModelRunner.slotValue_stateAt _ _).symm hs fun _ _ _ _ => trivial
  refine ⟨u, st', hok, hsettled, fun u' hu' => (hu u' hu').2, ?_⟩
  rw [ModelRunner.slotValue_stateAt] at hfollow
  have hafter : (⟨none, broughtAlong, ofRunner st⟩ : Follower F _).follow u = ofRunner st' := hfollow
  rw [← hafter]
  cases u with
  | none => rfl
  | some u => rfl

end Runner

section Pass

variable {x : MinTokensRun F} {vocabSize : Nat} {numDraftTokens : List Nat}

theorem Inv.mem_bonusPairs (h : x.Inv) {i tok : Nat} :
    (i, tok) ∈ (MinTokensLogitsProcessor.sliceOf x.processor.minToks).1.zip
        (MinTokensLogitsProcessor.sliceOf x.processor.minToks).2 ↔
      ∃ r, x.requests i = some r ∧ r.outputTokIds.length < r.params.minTokens ∧
        tok ∈ r.params.allStopTokenIds := by
  rw [MinTokensLogitsProcessor.mem_sliceOf]
  constructor
  · rintro ⟨e, he, htok⟩
    obtain ⟨r, hr, hlt, rfl⟩ := (h.entry i e).1 he
    exact ⟨r, hr, hlt, htok⟩
  · rintro ⟨r, hr, hlt, htok⟩
    exact ⟨r.entry, (h.entry i _).2 ⟨r, hr, hlt, rfl⟩, htok⟩

theorem Batch.get (h : x.Batch numDraftTokens) {i : Nat} {r : BatchRequest F}
    (hr : x.requests i = some r) : ∃ d, numDraftTokens[i]? = some d := by
  have hlt := (h i).1 (by rw [hr]; rfl)
  exact ⟨_, List.getElem?_eq_getElem hlt⟩

theorem Inv.mem_draftPairs (h : x.Inv) {i d j tok : Nat} {r : BatchRequest F}
    (hd : numDraftTokens[i]? = some d) (hr : x.requests i = some r) (hj : j < d) :
    (∃ i' e, x.processor.minToks.get? i' = some e ∧
        MinTokensLogitsProcessor.Masks numDraftTokens (i', e)
          ((numDraftTokens.take i).sum + j) tok) ↔
      r.outputTokIds.length + j < r.params.minTokens ∧ tok ∈ r.params.allStopTokenIds := by
  constructor
  · rintro ⟨i', e, he, d', hd', htok, j', hj', heq⟩
    have hlt := Nat.lt_of_lt_of_le hj' (Nat.min_le_right _ _)
    obtain ⟨rfl, rfl⟩ := sum_take_add_inj hd hd' hj hlt heq
    obtain ⟨r', hr', -, rfl⟩ := (h.entry i e).1 he
    cases hr.symm.trans hr'
    have hlacks := Nat.lt_of_lt_of_le hj' (Nat.min_le_left _ _)
    exact ⟨Nat.add_lt_of_lt_sub' hlacks, htok⟩
  · rintro ⟨hlt, htok⟩
    have hlacks := Nat.lt_of_le_of_lt (Nat.le_add_right _ _) hlt
    refine ⟨i, r.entry, (h.entry i _).2 ⟨r, hr, hlacks, rfl⟩, d, hd, htok, j, ?_, rfl⟩
    exact Nat.lt_min.2 ⟨Nat.lt_sub_iff_add_lt'.2 hlt, hj⟩

theorem mask_congr {P : Nat → Prop} [DecidablePred P] {r : BatchRequest F} {n : Nat}
    (h : ∀ tok, P tok ↔ n < r.params.minTokens ∧ tok ∈ r.params.allStopTokenIds) :
    (fun row : Sample.Row => row.mapIdx fun tok x => if P tok then ⊥ else x) = r.maskStops n := by
  funext row
  unfold BatchRequest.maskStops
  congr 1
  funext tok x
  simp only [h]

theorem row_of_shape {bonusLogits : List Sample.Row} {i tok : Nat}
    (hrows : ∀ row ∈ bonusLogits, row.length = vocabSize) (hi : i < bonusLogits.length)
    (htok : tok < vocabSize) : ∃ row, bonusLogits[i]? = some row ∧ tok < row.length :=
  ⟨_, List.getElem?_eq_getElem hi, by rwa [hrows _ (List.getElem_mem hi)]⟩

theorem LacksBeyondDrafts.maskedExactly (h : x.Inv) (hbatch : x.Batch numDraftTokens)
    (hlacks : x.LacksBeyondDrafts vocabSize numDraftTokens) :
    x.MaskedExactly vocabSize numDraftTokens := by
  intro bonusLogits targetLogits hbonus htarget hrows
  obtain ⟨pairs, hspec, hpairs⟩ := MinTokensLogitsProcessor.applyWithSpecDecode_eq
    fun i e he => (h.entry i e).1 he |>.elim fun r hr => hbatch.get hr.1
  obtain ⟨bonus, hok, hmasked⟩ := maskLogits_ok bonusLogits
    ((MinTokensLogitsProcessor.sliceOf x.processor.minToks).1.zip
      (MinTokensLogitsProcessor.sliceOf x.processor.minToks).2) (by
      intro p hp
      obtain ⟨r, hr, hlt, htok⟩ := h.mem_bonusPairs.1 hp
      obtain ⟨d, hd⟩ := hbatch.get hr
      apply row_of_shape fun row hrow => hrows row (List.mem_append_left _ hrow)
      · rw [hbonus]
        exact (List.getElem?_eq_some_iff.1 hd).1
      · exact (hlacks _ d r hd hr hlt).1 _ htok)
  obtain ⟨target, hok', hmasked'⟩ := maskLogits_ok targetLogits pairs (by
      intro p hp
      obtain ⟨i, e, he, d, hd, htok, j, hj, hrow⟩ := (hpairs p.1 p.2).1 hp
      obtain ⟨r, hr, hlt, rfl⟩ := (h.entry i e).1 he
      apply row_of_shape fun row hrow => hrows row (List.mem_append_right _ hrow)
      · have hle := sum_take_add_le hd (List.getElem?_eq_some_iff.1 hd).1
        rw [List.take_length] at hle
        rw [htarget, hrow]
        exact Nat.lt_of_lt_of_le
          (Nat.add_lt_add_left (Nat.lt_of_lt_of_le hj (Nat.min_le_right _ _)) _) hle
      · exact (hlacks i d r hd hr hlt).1 _ htok)
  refine ⟨bonus, target, (MinTokensLogitsProcessor.apply_eq h.slice _).trans hok,
    (hspec _).trans hok', fun i d r hd hr => ⟨fun j hj => ?_, ?_⟩⟩
  · rw [hmasked', mask_congr]
    intro tok
    rw [hpairs, h.mem_draftPairs hd hr hj]
  · rw [hmasked, mask_congr]
    intro tok
    rw [h.mem_bonusPairs]
    constructor
    · rintro ⟨r', hr', hlt, htok⟩
      cases hr.symm.trans hr'
      have hbeyond := (hlacks i d r hd hr hlt).2.resolve_left (List.ne_nil_of_mem htok)
      exact ⟨hbeyond, htok⟩
    · rintro ⟨hlt, htok⟩
      exact ⟨r, hr, Nat.lt_of_le_of_lt (Nat.le_add_right _ _) hlt, htok⟩

theorem MaskedExactly.lacksBeyondDrafts (h : x.Inv)
    (hmasked : x.MaskedExactly vocabSize numDraftTokens) :
    x.LacksBeyondDrafts vocabSize numDraftTokens := by
  intro i d r hd hr hlt
  obtain ⟨bonus, target, hok, -, hexact⟩ := hmasked
    (List.replicate numDraftTokens.length (List.replicate vocabSize ((0 : ℚ) : Sample.Logit)))
    (List.replicate numDraftTokens.sum (List.replicate vocabSize ((0 : ℚ) : Sample.Logit)))
    List.length_replicate List.length_replicate (by simp +contextual)
  rw [MinTokensLogitsProcessor.apply_eq h.slice] at hok
  have hvalid := valid_of_maskLogits hok
  have hvocab : ∀ tok ∈ r.params.allStopTokenIds, tok < vocabSize := by
    intro tok htok
    obtain ⟨row, hrow, htok⟩ := hvalid (i, tok) (h.mem_bonusPairs.2 ⟨r, hr, hlt, htok⟩)
    rw [List.getElem?_replicate] at hrow
    split at hrow
    · cases hrow
      rwa [List.length_replicate] at htok
    · cases hrow
  refine ⟨hvocab, ?_⟩
  by_contra hnot
  obtain ⟨hstops, hattains⟩ := not_or.1 hnot
  obtain ⟨tok, htok⟩ := List.exists_mem_of_ne_nil _ hstops
  obtain ⟨out, hout, hall⟩ := maskLogits_ok _ _ hvalid
  cases hok.symm.trans hout
  have hi := (List.getElem?_eq_some_iff.1 hd).1
  have hrow := (hall i).symm.trans (hexact i d r hd hr).2
  rw [List.getElem?_replicate, if_pos hi, Option.map_some, Option.map_some, Option.some_inj] at hrow
  have htokrow := congrArg (·[tok]?) hrow
  simp only [BatchRequest.maskStops, List.getElem?_mapIdx, List.getElem?_replicate,
    if_pos (hvocab tok htok), Option.map_some, h.mem_bonusPairs, hattains, false_and,
    if_false] at htokrow
  rw [if_pos ⟨r, hr, hlt, htok⟩] at htokrow
  exact absurd (Option.some_inj.1 htokrow) WithBot.bot_ne_coe

end Pass

/-- In every batch that a run of updates leads to, the stop tokens are masked exactly if no request
attains its minimum within its drafts. -/
theorem maskedExactly_iff (ss : List (MinTokensStep F))
    (hss : ∀ s ∈ ss, ∀ u ∈ s.update, OneWay u.moved) (vocabSize : Nat)
    (numDraftTokens : List Nat) (hbatch : (ss.foldl step init).Batch numDraftTokens) :
    (ss.foldl step init).MaskedExactly vocabSize numDraftTokens ↔
      (ss.foldl step init).LacksBeyondDrafts vocabSize numDraftTokens := by
  have hinv : (ss.foldl step init).Inv := Inv.init.run hss
  constructor
  · exact fun hmasked => hmasked.lacksBeyondDrafts hinv
  · exact fun hlacks => hlacks.maskedExactly hinv hbatch

section Sample

def stopsParams (minTokens : Nat) : SamplingParams Rat where
  samplingType := .greedy
  temperature := 0
  topP := 1
  topK := 0
  minP := 0
  frequencyPenalty := 0
  presencePenalty := 0
  repetitionPenalty := 1
  minTokens
  allStopTokenIds := [2]

def oneToken (minTokens : Nat) : List (MinTokensStep Rat) :=
  [⟨fun _ => [], some ⟨1, [], [⟨0, stopsParams minTokens, some [0, 1], []⟩], []⟩⟩,
    ⟨fun _ => [3], none⟩]

theorem oneToken_oneWay (minTokens : Nat) :
    ∀ s ∈ oneToken minTokens, ∀ u ∈ s.update, OneWay u.moved := by
  simp [oneToken, OneWay]

theorem oneToken_batch (minTokens : Nat) : ((oneToken minTokens).foldl step init).Batch [1] := by
  intro i
  cases i with
  | zero => exact iff_of_true rfl Nat.one_pos
  | succ i => exact iff_of_false nofun (Nat.not_lt.2 (Nat.le_add_left 1 i))

theorem maskedExactly_iff_oneToken : ((oneToken 3).foldl step init).MaskedExactly 4 [1] := by
  refine (maskedExactly_iff (oneToken 3) (oneToken_oneWay 3) 4 [1] (oneToken_batch 3)).2 ?_
  intro i d r hd hr _
  cases i with
  | zero =>
    cases hd
    cases hr
    exact ⟨by decide, .inr (by decide)⟩
  | succ i => cases hd

/-- With a minimum of two tokens the draft is output number one, which must not stop; the bonus token
may, but its row is masked as well. -/
theorem not_maskedExactly_bonus : ¬ ((oneToken 2).foldl step init).MaskedExactly 4 [1] := by
  intro h
  have hinv := Inv.init.run (oneToken_oneWay 2)
  have hlacks := h.lacksBeyondDrafts hinv 0 1 ⟨stopsParams 2, [3]⟩ rfl rfl (by decide)
  rcases hlacks.2 with hnil | hlt
  · cases hnil
  · exact absurd hlt (by decide)

end Sample

end MinTokensRun

end Vllm.Worker
