import Vllm.OutputProcessor
import Mathlib.Tactic.Common

namespace Vllm.Frontend

variable {D E K : Type}

@[ext] structure Chunk (E : Type) where
  text : Text
  tokenIds : List Int
  logprobs : List E
  finishReasons : List String

namespace Chunk

def empty : Chunk E := ⟨[], [], [], []⟩

instance : Append (Chunk E) where
  append a b := ⟨a.text ++ b.text, a.tokenIds ++ b.tokenIds, a.logprobs ++ b.logprobs,
    a.finishReasons ++ b.finishReasons⟩

variable (a b c : Chunk E)

@[simp] theorem text_append : (a ++ b).text = a.text ++ b.text := rfl

@[simp] theorem tokenIds_append : (a ++ b).tokenIds = a.tokenIds ++ b.tokenIds := rfl

@[simp] theorem logprobs_append : (a ++ b).logprobs = a.logprobs ++ b.logprobs := rfl

@[simp] theorem finishReasons_append :
    (a ++ b).finishReasons = a.finishReasons ++ b.finishReasons := rfl

theorem append_assoc : a ++ b ++ c = a ++ (b ++ c) := by
  ext1 <;> simp

@[simp] theorem append_empty : a ++ empty = a := by
  ext1 <;> simp [empty]

@[simp] theorem empty_append : empty ++ a = a := by
  ext1 <;> simp [empty]

end Chunk

def CompletionOutput.chunk (p : CompletionOutput (List E)) : Chunk E where
  text := p.text
  tokenIds := p.tokenIds
  logprobs := p.logprobs.getD []
  finishReasons := p.finishReason.toList

@[simp] theorem CompletionOutput.seen_index (lists : LogprobsLists E)
    (p : CompletionOutput (LogprobsRef E)) : (p.seen lists).index = p.index := rfl

def ofIndex {L : Type} (l : List (CompletionOutput L)) (i : Nat) : List (CompletionOutput L) :=
  l.filter fun p => p.index = i

def chunks (l : List (CompletionOutput (List E))) (i : Nat) : Chunk E where
  text := (ofIndex l i).flatMap (·.text)
  tokenIds := (ofIndex l i).flatMap (·.tokenIds)
  logprobs := (ofIndex l i).flatMap (·.logprobs.getD [])
  finishReasons := (ofIndex l i).flatMap (·.finishReason.toList)

@[simp] theorem chunks_nil (i : Nat) : chunks ([] : List (CompletionOutput (List E))) i = .empty :=
  rfl

theorem chunks_append (l l' : List (CompletionOutput (List E))) (i : Nat) :
    chunks (l ++ l') i = chunks l i ++ chunks l' i := by
  ext1 <;> simp [chunks, ofIndex]

theorem chunks_cons (p : CompletionOutput (List E)) (l : List (CompletionOutput (List E)))
    (i : Nat) : chunks (p :: l) i = (if p.index = i then p.chunk else .empty) ++ chunks l i := by
  by_cases h : p.index = i <;> ext1 <;> simp [chunks, ofIndex, h, CompletionOutput.chunk, Chunk.empty]

theorem chunks_eq_empty {l : List (CompletionOutput (List E))} {i : Nat}
    (h : ∀ p ∈ l, p.index ≠ i) : chunks l i = .empty := by
  have hnil : ofIndex l i = [] := List.filter_eq_nil_iff.mpr (by simpa using h)
  simp [chunks, hnil, Chunk.empty]

section Merge

variable {lists lists' : LogprobsLists E} {agg : Bool}

def Mergeable (lists : LogprobsLists E) (waiting next : CompletionOutput (LogprobsRef E)) : Prop :=
  waiting.finishReason = none ∧
    (∀ id, waiting.logprobs = some (.processor id) → (next.seen lists).chunk.logprobs = [])

theorem extendLogprobs_spec {c next c' : Option (LogprobsRef E)}
    (h : ∀ id, c = some (.processor id) → (next.map (·.value lists)).getD [] = [])
    (hext : extendLogprobs lists c next = .ok (lists', c')) :
    lists' = lists ∧ (c'.map (·.value lists)).getD [] =
        (c.map (·.value lists)).getD [] ++ (next.map (·.value lists)).getD [] ∧
      (∀ id, c' = some (.processor id) → c = some (.processor id)) := by
  unfold extendLogprobs at hext
  generalize (next.map (·.value lists)).getD [] = new at h hext
  cases new with
  | nil =>
    cases hext
    exact ⟨rfl, by simp, fun _ h => h⟩
  | cons e es =>
    match c, hext, h with
    | some (.copy l), hext, _ =>
      cases hext
      exact ⟨rfl, rfl, nofun⟩
    | some (.processor id), _, h => cases h id rfl

theorem addCompletion_spec {next : CompletionOutput (LogprobsRef E)}
    {l l' : List (CompletionOutput (LogprobsRef E))} (hnodup : (l.map (·.index)).Nodup)
    (hmerge : ∀ p ∈ l, p.index = next.index → Mergeable lists p next)
    (hadd : addCompletion true lists next l = .ok (lists', l')) :
    lists' = lists ∧ (l'.map (·.index)).Nodup ∧
      (∀ j, chunks (l'.map (·.seen lists)) j = chunks (l.map (·.seen lists)) j ++
        chunks [next.seen lists] j) ∧
      (∀ p ∈ l', p.index = next.index ∨ p ∈ l) ∧
      (∀ p ∈ l', ∀ id, p.logprobs = some (.processor id) →
        ∃ p' ∈ next :: l, p'.index = p.index ∧ p'.logprobs = some (.processor id)) := by
  induction l generalizing lists' l' with
  | nil =>
    cases hadd
    refine ⟨rfl, List.nodup_singleton _, fun j => ?_, ?_, ?_⟩
    · simp
    · intro p hp
      exact .inl (congrArg _ (List.mem_singleton.mp hp))
    · intro p hp id hid
      exact ⟨p, hp, rfl, hid⟩
  | cons c l ih =>
    obtain ⟨hnew, hrest⟩ := List.nodup_cons.mp hnodup
    rw [addCompletion] at hadd
    split at hadd
    · -- the piece of this child that waits
      rename_i hindex
      rw [if_pos rfl, Result.bind_eq_ok] at hadd
      obtain ⟨⟨lists₁, logprobs⟩, hext, hadd⟩ := hadd
      cases hadd
      obtain ⟨hfinish, hlog⟩ := hmerge c List.mem_cons_self hindex
      obtain ⟨rfl, hvalue, href⟩ := extendLogprobs_spec hlog hext
      refine ⟨rfl, hnodup, fun j => ?_, ?_, ?_⟩
      · rw [List.map_cons, List.map_cons, chunks_cons, chunks_cons, chunks_cons, chunks_nil,
          Chunk.append_empty]
        by_cases hj : c.index = j
        · have hothers : chunks (l.map (·.seen lists')) j = .empty := by
            refine chunks_eq_empty fun q hq hqj => hnew ?_
            obtain ⟨p, hp, hpq⟩ := List.mem_map.mp hq
            subst hpq
            exact List.mem_map.mpr ⟨p, hp, hqj.trans hj.symm⟩
          have hnext : next.index = j := hindex.symm.trans hj
          simp only [CompletionOutput.seen_index, hothers, Chunk.append_empty, hj, hnext, if_true]
          ext1
          · rfl
          · rfl
          · exact hvalue
          · show next.finishReason.toList = c.finishReason.toList ++ next.finishReason.toList
            rw [hfinish]
            rfl
        · have hnext : next.index ≠ j := fun h => hj (hindex.trans h)
          simp only [CompletionOutput.seen_index, hj, hnext, if_false, Chunk.append_empty]
      · intro p hp
        rcases List.mem_cons.mp hp with rfl | hp
        · exact .inl hindex
        · exact .inr (List.mem_cons_of_mem c hp)
      · intro p hp id hid
        rcases List.mem_cons.mp hp with rfl | hp
        · exact ⟨c, by simp, rfl, href id hid⟩
        · exact ⟨p, by simp [hp], rfl, hid⟩
    · rename_i hindex
      rw [Result.bind_eq_ok] at hadd
      obtain ⟨⟨lists₁, rest⟩, hrec, hadd⟩ := hadd
      cases hadd
      obtain ⟨rfl, hnodup', hchunks, hmem, href⟩ :=
        ih hrest (fun p hp => hmerge p (List.mem_cons_of_mem c hp)) hrec
      refine ⟨rfl, ?_, fun j => ?_, ?_, ?_⟩
      · refine List.nodup_cons.mpr ⟨fun hc => ?_, hnodup'⟩
        obtain ⟨p, hp, hpc⟩ := List.mem_map.mp hc
        rcases hmem p hp with hnext | hold
        · exact hindex (hpc.symm.trans hnext)
        · exact hnew (hpc ▸ List.mem_map_of_mem hold)
      · rw [List.map_cons, List.map_cons, chunks_cons, chunks_cons, hchunks, Chunk.append_assoc]
      · intro p hp
        rcases List.mem_cons.mp hp with rfl | hp
        · exact .inr List.mem_cons_self
        · exact (hmem p hp).imp_right (List.mem_cons_of_mem c)
      · intro p hp id hid
        rcases List.mem_cons.mp hp with rfl | hp
        · exact ⟨p, by simp, rfl, hid⟩
        · obtain ⟨p', hp', hindex', hid'⟩ := href p hp id hid
          refine ⟨p', ?_, hindex', hid'⟩
          rcases List.mem_cons.mp hp' with rfl | hp'
          · simp
          · simp [hp']

end Merge

namespace RequestOutputCollector

variable {c c' : RequestOutputCollector E K} {lists lists' : LogprobsLists E}

def waiting (c : RequestOutputCollector E K) : List (CompletionOutput (LogprobsRef E)) :=
  match c.output with
  | some (.output o) => o.outputs
  | _ => []

def finished (c : RequestOutputCollector E K) : Bool :=
  match c.output with
  | some (.output o) => o.finished
  | _ => false

structure Streaming (c : RequestOutputCollector E K) : Prop where
  aggregate : c.aggregate = true
  noException : ∀ e, c.output ≠ some (.exception e)
  nodup : (c.waiting.map (·.index)).Nodup

theorem put_spec (h : c.Streaming) {out : RequestOutput (LogprobsRef E) K}
    {p : CompletionOutput (LogprobsRef E)} (hout : out.outputs = [p])
    (hmerge : ∀ p' ∈ c.waiting, p'.index = p.index → Mergeable lists p' p)
    (hput : c.put lists (.output out) = .ok (lists', c')) :
    lists' = lists ∧ c'.Streaming ∧ c'.output ≠ none ∧
      c'.finished = (c.finished || out.finished) ∧
      (∀ j, chunks (c'.waiting.map (·.seen lists)) j = chunks (c.waiting.map (·.seen lists)) j ++
        chunks [p.seen lists] j) ∧
      (∀ x ∈ c'.waiting, x.index = p.index ∨ x ∈ c.waiting) ∧
      (∀ x ∈ c'.waiting, ∀ id, x.logprobs = some (.processor id) →
        ∃ y ∈ p :: c.waiting, y.index = x.index ∧ y.logprobs = some (.processor id)) := by
  obtain ⟨aggregate, output⟩ := c
  obtain rfl : aggregate = true := h.aggregate
  match output with
  | none =>
    cases hput
    refine ⟨rfl, ⟨rfl, nofun, ?_⟩, nofun, rfl, fun j => ?_, fun x hx => ?_, ?_⟩
    · show (out.outputs.map (·.index)).Nodup
      rw [hout]
      exact List.nodup_singleton _
    · show chunks (out.outputs.map (·.seen lists)) j = .empty ++ _
      rw [hout, Chunk.empty_append]
      rfl
    · change x ∈ out.outputs at hx
      rw [hout] at hx
      exact .inl (congrArg _ (List.mem_singleton.mp hx))
    · intro x hx id hid
      change x ∈ out.outputs at hx
      rw [hout] at hx
      exact ⟨x, List.mem_cons.mpr (.inl (List.mem_singleton.mp hx)), rfl, hid⟩
  | some (.exception e) => exact absurd rfl (h.noException e)
  | some (.output o) =>
    unfold put at hput
    rw [Result.bind_eq_ok] at hput
    obtain ⟨⟨lists₁, merged⟩, hadd, hput⟩ := hput
    cases hput
    rw [RequestOutput.add, hout, Result.bind_eq_ok] at hadd
    obtain ⟨⟨lists₁, outputs⟩, hadd, hmerged⟩ := hadd
    cases hmerged
    rw [List.foldlM_cons, Result.bind_eq_ok] at hadd
    obtain ⟨_, hadd, hnil⟩ := hadd
    cases hnil
    obtain ⟨hlists, hnodup, hchunks, hmem, href⟩ := addCompletion_spec h.nodup hmerge hadd
    exact ⟨hlists, ⟨rfl, nofun, hnodup⟩, nofun, rfl, hchunks, hmem, href⟩

end RequestOutputCollector

namespace RequestState

variable {st st' : RequestState D} {l : List E} {sent : Chunk E}

structure Cut (st : RequestState D) (l : List E) (sent : Chunk E) : Prop where
  held : st.detokenizer.Held
  text : sent.text = st.detokenizer.sentText
  offset : st.sentTokensOffset ≤ st.detokenizer.numOutputTokens
  tokenIds : sent.tokenIds = if st.streamInterval > 1 then
    st.detokenizer.outputTokenIds.take st.sentTokensOffset else st.detokenizer.outputTokenIds
  rows : st.numLogprobs ≠ none → l.length = st.detokenizer.numOutputTokens
  logprobs : sent.logprobs =
    if st.numLogprobs = none then [] else l.take sent.tokenIds.length
  finishReasons : sent.finishReasons = []

structure Whole (st : RequestState D) (l : List E) (sent : Chunk E) : Prop where
  text : sent.text = st.detokenizer.outputText
  tokenIds : sent.tokenIds = st.detokenizer.outputTokenIds
  rows : st.numLogprobs ≠ none → l.length = st.detokenizer.numOutputTokens
  logprobs : sent.logprobs = if st.numLogprobs = none then [] else l
  finishReasons : sent.finishReasons.length = 1

def unsent (st : RequestState D) (newTokenIds : List Int) : List Int :=
  if st.streamInterval > 1 then st.detokenizer.outputTokenIds.drop st.sentTokensOffset
  else newTokenIds

structure Updated (st : RequestState D) (l : List E) (sent : Chunk E) (newTokenIds : List Int) :
    Prop where
  within : st.detokenizer.Within
  text : sent.text = st.detokenizer.sentText
  offset : st.sentTokensOffset ≤ st.detokenizer.numOutputTokens
  tokenIds : sent.tokenIds ++ st.unsent newTokenIds = st.detokenizer.outputTokenIds
  rows : st.numLogprobs ≠ none → l.length = st.detokenizer.numOutputTokens
  logprobs : sent.logprobs =
    if st.numLogprobs = none then [] else l.take sent.tokenIds.length
  finishReasons : sent.finishReasons = []

structure SameRequest (st st' : RequestState D) : Prop where
  requestId : st'.requestId = st.requestId
  externalReqId : st'.externalReqId = st.externalReqId
  parentReq : st'.parentReq = st.parentReq
  requestIndex : st'.requestIndex = st.requestIndex
  numLogprobs : st'.numLogprobs = st.numLogprobs
  queue : st'.queue = st.queue
  streamInterval : st'.streamInterval = st.streamInterval

theorem Updated.cut {new : List Int} (h : Updated st l sent new) (hheld : st.detokenizer.Held)
    (hsends : st.sends none = false) : Cut st l sent where
  held := hheld
  text := h.text
  offset := h.offset
  tokenIds := by
    simp only [sends, Bool.or_eq_false_iff, decide_eq_false_iff_not] at hsends
    have hinterval : st.streamInterval > 1 := by omega
    have htokens := h.tokenIds
    rw [unsent, if_pos hinterval] at htokens
    rw [if_pos hinterval]
    have hall := htokens.trans (List.take_append_drop st.sentTokensOffset
      st.detokenizer.outputTokenIds).symm
    exact List.append_cancel_right hall
  rows := h.rows
  logprobs := h.logprobs
  finishReasons := h.finishReasons

theorem Cut.updated (h : Cut st l sent) : Updated st l sent [] where
  within := h.held.within
  text := h.text
  offset := h.offset
  tokenIds := by
    rw [h.tokenIds, unsent]
    split <;> simp
  rows := h.rows
  logprobs := h.logprobs
  finishReasons := h.finishReasons

theorem Cut.update (h : Cut st l sent) {decodeNext : D → List Int → Int → Text × D}
    {new : List Int} {stopTerminated : Bool} {detokenizer : IncrementalDetokenizer D}
    {stop : Option Text} (numCachedTokens : Nat)
    (hupdate : st.detokenizer.update decodeNext new stopTerminated = (detokenizer, stop))
    {rows : List E} (hrows : st.numLogprobs ≠ none → rows.length = new.length) :
    Updated { st with detokenizer, numCachedTokens } (l ++ rows) sent new ∧
      (stop = none → detokenizer.Held) := by
  obtain ⟨htokens, hsent, hwithin, hheld⟩ := IncrementalDetokenizer.update_spec h.held hupdate
  have hlen := congrArg List.length htokens
  rw [List.length_append, IncrementalDetokenizer.length_outputTokenIds,
    IncrementalDetokenizer.length_outputTokenIds] at hlen
  have hoffset := h.offset
  have hsentTokens := h.tokenIds
  refine ⟨⟨hwithin, h.text.trans hsent.symm, ?_, ?_, ?_, ?_, h.finishReasons⟩, hheld⟩
  · show st.sentTokensOffset ≤ detokenizer.numOutputTokens
    omega
  · show sent.tokenIds ++ (if st.streamInterval > 1 then
      detokenizer.outputTokenIds.drop st.sentTokensOffset else new) = detokenizer.outputTokenIds
    rw [hsentTokens, htokens]
    split
    · rw [List.drop_append_of_le_length
        (by rwa [IncrementalDetokenizer.length_outputTokenIds]), ← List.append_assoc,
        List.take_append_drop]
    · rfl
  · intro hsome
    show (l ++ rows).length = detokenizer.numOutputTokens
    rw [List.length_append, h.rows hsome, hrows hsome, hlen]
  · show sent.logprobs = if st.numLogprobs = none then [] else (l ++ rows).take sent.tokenIds.length
    rw [h.logprobs]
    split
    · rfl
    · rename_i hsome
      have hle : sent.tokenIds.length ≤ l.length := by
        rw [h.rows hsome, ← IncrementalDetokenizer.length_outputTokenIds, hsentTokens]
        split
        · exact List.length_take_le' _ _
        · exact Nat.le_refl _
      rw [List.take_append_of_le_length hle]

theorem deltaLogprobs_value {new : List Int} (h : Updated st l sent new) {lists : LogprobsLists E}
    (hl : lists st.requestId = l) (hclean : st.numLogprobs ≠ none → st.unsent new = [] → l = []) :
    ((st.deltaLogprobs lists (st.unsent new)).map (·.value lists)).getD [] =
      if st.numLogprobs = none then [] else l.drop sent.tokenIds.length := by
  have hlen : sent.tokenIds.length + (st.unsent new).length = st.detokenizer.numOutputTokens := by
    rw [← List.length_append, h.tokenIds, IncrementalDetokenizer.length_outputTokenIds]
  rw [deltaLogprobs, hl]
  split
  · rfl
  rename_i hsome
  have hrows := h.rows hsome
  split
  · rename_i hnil
    show lists st.requestId = _
    rw [hl, hnil, List.drop_nil]
  · rename_i hne
    have hpos : st.unsent new ≠ [] := fun hnil => hne (hclean hsome hnil)
    have hpos := List.length_pos_iff.mpr hpos
    show Py.sliceFrom l _ = _
    rw [Py.sliceFrom, Py.bound, if_pos (by omega)]
    congr 1
    omega

theorem deltaLogprobs_processor {lists : LogprobsLists E} {tokenIds : List Int} {id : ReqId}
    (h : st.deltaLogprobs lists tokenIds = some (.processor id)) :
    id = st.requestId ∧ lists id = [] := by
  rw [deltaLogprobs] at h
  split at h
  · cases h
  · split at h
    · rename_i hnil
      cases h
      exact ⟨rfl, hnil⟩
    · cases h

theorem newCompletionOutput_spec {new : List Int} (h : Updated st l sent new)
    {lists : LogprobsLists E} (hl : lists st.requestId = l) {finishReason : Option FinishReason}
    {stopReason : Option StopReason} {p : CompletionOutput (LogprobsRef E)}
    (hclean : st.numLogprobs ≠ none → st.unsent new = [] → l = [])
    (hnew : newCompletionOutput { st with sentTokensOffset :=
      if st.streamInterval > 1 then st.detokenizer.numOutputTokens else st.sentTokensOffset }
      lists (st.unsent new) finishReason stopReason = (p, st')) :
    SameRequest st st' ∧ p.index = st.requestIndex ∧
      p.finishReason = finishReason.map finishReasonString ∧
      (∀ id, p.logprobs = some (.processor id) → id = st.requestId ∧ lists id = []) ∧
      (l = [] → (p.seen lists).chunk.logprobs = []) ∧
      (finishReason = none → st.detokenizer.Held → Cut st' l (sent ++ (p.seen lists).chunk)) ∧
      (finishReason ≠ none → Whole st' l (sent ++ (p.seen lists).chunk)) := by
  unfold newCompletionOutput at hnew
  generalize hnext : st.detokenizer.getNextOutputText finishReason.isSome = next at hnew
  obtain ⟨text, detokenizer⟩ := next
  obtain ⟨hsentText, htokens, houtput, hend, hheld⟩ :=
    IncrementalDetokenizer.getNextOutputText_spec h.within hnext
  have hnum : detokenizer.numOutputTokens = st.detokenizer.numOutputTokens := by
    rw [← IncrementalDetokenizer.length_outputTokenIds, htokens,
      IncrementalDetokenizer.length_outputTokenIds]
  have hlogs := deltaLogprobs_value h hl hclean
  have hoffset := h.offset
  cases hnew
  have hall : sent.logprobs ++ ((st.deltaLogprobs lists (st.unsent new)).map (·.value lists)).getD []
      = if st.numLogprobs = none then [] else l := by
    rw [hlogs, h.logprobs]
    split
    · rfl
    · exact List.take_append_drop _ l
  refine ⟨⟨rfl, rfl, rfl, rfl, rfl, rfl, rfl⟩, rfl, rfl, fun id => deltaLogprobs_processor,
    fun hnil => ?_, fun hnone hstHeld => ?_, fun hsome => ?_⟩
  · refine hlogs.trans ?_
    rw [hnil, List.drop_nil, ite_self]
  · subst hnone
    refine ⟨hheld rfl hstHeld, ?_, ?_, ?_, ?_, ?_, ?_⟩
    · show sent.text ++ text = detokenizer.sentText
      rw [h.text, hsentText]
    · show (if st.streamInterval > 1 then st.detokenizer.numOutputTokens else
        st.sentTokensOffset) ≤ detokenizer.numOutputTokens
      split <;> omega
    · show sent.tokenIds ++ st.unsent new = if st.streamInterval > 1 then
        detokenizer.outputTokenIds.take (if st.streamInterval > 1 then
          st.detokenizer.numOutputTokens else st.sentTokensOffset) else detokenizer.outputTokenIds
      rw [h.tokenIds, htokens]
      split
      · rw [← IncrementalDetokenizer.length_outputTokenIds, List.take_length]
      · rfl
    · intro hsome
      exact (h.rows hsome).trans hnum.symm
    · refine hall.trans ?_
      show _ = if st.numLogprobs = none then [] else l.take (sent.tokenIds ++ st.unsent new).length
      split
      · rfl
      · rename_i hsome
        rw [h.tokenIds, IncrementalDetokenizer.length_outputTokenIds, ← h.rows hsome,
          List.take_length]
    · show sent.finishReasons ++ [] = []
      rw [h.finishReasons]
      rfl
  · obtain ⟨reason, rfl⟩ := Option.ne_none_iff_exists'.mp hsome
    refine ⟨?_, ?_, ?_, hall, ?_⟩
    · show sent.text ++ text = detokenizer.outputText
      rw [h.text, ← hsentText, hend rfl]
    · show sent.tokenIds ++ st.unsent new = detokenizer.outputTokenIds
      rw [h.tokenIds, htokens]
    · intro hsome
      exact (h.rows hsome).trans hnum.symm
    · show (sent.finishReasons ++ [finishReasonString reason]).length = 1
      rw [h.finishReasons]
      rfl

end RequestState

end Vllm.Frontend
