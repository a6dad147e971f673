import Vllm.Lib.Py

/-! Incremental detokenisation of one request: its output tokens, its output text, and how much of
the text is held back because it may turn out to be the start of a stop string. -/

namespace Vllm

abbrev Text := List Char

def Text.find (text sub : Text) (start : Int) : Option Nat :=
  let first := if start < 0 then (start + text.length).toNat else start.toNat
  (List.range (text.length + 1)).find? fun i => first ≤ i ∧ sub.isPrefixOf (text.drop i)

/-- The matched stop string, and the length to cut the text to (`none` stands for `-1`). -/
def checkStopStrings (outputText : Text) (newCharCount : Nat) (stop : List Text)
    (includeInOutput : Bool) : Option (Text × Option Nat) :=
  if newCharCount = 0 ∨ stop = [] then none
  else stop.findSome? fun stopStr =>
    match outputText.find stopStr (1 - newCharCount - stopStr.length) with
    | none => none
    | some stopIndex =>
      if includeInOutput then
        if stopIndex + stopStr.length ≥ outputText.length then some (stopStr, none)
        else some (stopStr, some (stopIndex + stopStr.length))
      else some (stopStr, some stopIndex)

structure StopParams where
  stop : List Text
  minTokens : Nat
  includeStopStrInOutput : Bool
  /-- `SamplingParams` refuses an empty stop string. -/
  nonempty : ∀ s ∈ stop, s ≠ []

def StopParams.stopBufferLength (p : StopParams) : Nat :=
  if p.stop ≠ [] ∧ p.includeStopStrInOutput = false then
    (p.stop.map List.length).max?.getD 0 - 1
  else 0

structure BaseIncrementalDetokenizer (D : Type) where
  params : StopParams
  lastOutputTextOffset : Nat
  outputText : Text
  decoder : D

/-- `tokenIds` starts with `promptLen` prompt tokens in the slow detokenizer; without a tokenizer
there is no `base`. -/
structure IncrementalDetokenizer (D : Type) where
  tokenIds : List Int
  promptLen : Nat
  base : Option (BaseIncrementalDetokenizer D)

namespace IncrementalDetokenizer

variable {D : Type}

def outputTokenIds (d : IncrementalDetokenizer D) : List Int := d.tokenIds.drop d.promptLen

def numOutputTokens (d : IncrementalDetokenizer D) : Nat := d.tokenIds.length - d.promptLen

def outputText (d : IncrementalDetokenizer D) : Text := (d.base.map (·.outputText)).getD []

/-- The loop over the new tokens of an update, with `stop_check_offset`. -/
def decodeNew (decodeNext : D → List Int → Int → Text × D) (promptLen minTokens : Nat) :
    List Int → D → Text → Nat → List Int → List Int × D × Text × Nat
  | tokenIds, decoder, outputText, stopCheckOffset, [] =>
    (tokenIds, decoder, outputText, stopCheckOffset)
  | tokenIds, decoder, outputText, stopCheckOffset, newTokenId :: rest =>
    let tokenIds := tokenIds ++ [newTokenId]
    let (text, decoder) := decodeNext decoder tokenIds newTokenId
    let outputText := outputText ++ text
    let stopCheckOffset :=
      if minTokens ≠ 0 ∧ tokenIds.length - promptLen ≤ minTokens then outputText.length
      else stopCheckOffset
    decodeNew decodeNext promptLen minTokens tokenIds decoder outputText stopCheckOffset rest

def update (decodeNext : D → List Int → Int → Text × D) (d : IncrementalDetokenizer D)
    (newTokenIds : List Int) (stopTerminated : Bool) : IncrementalDetokenizer D × Option Text :=
  match d.base with
  | none => ({ d with tokenIds := d.tokenIds ++ newTokenIds }, none)
  | some base =>
    if newTokenIds = [] then (d, none)
    else
      let skips := stopTerminated && !base.params.includeStopStrInOutput
      let decoded := if skips then newTokenIds.dropLast else newTokenIds
      let skippedStopTokenId := if skips then newTokenIds.getLast?.toList else []
      let (tokenIds, decoder, outputText, stopCheckOffset) :=
        decodeNew decodeNext d.promptLen base.params.minTokens d.tokenIds base.decoder
          base.outputText base.outputText.length decoded
      let d' : IncrementalDetokenizer D := { d with tokenIds := tokenIds ++ skippedStopTokenId }
      let stop :=
        if base.params.stop ≠ [] ∧ d'.numOutputTokens > base.params.minTokens then
          checkStopStrings outputText (outputText.length - stopCheckOffset) base.params.stop
            base.params.includeStopStrInOutput
        else none
      let outputText :=
        match stop with
        | some (_, some truncateTo) => outputText.take truncateTo
        | _ => outputText
      ({ d' with base := some { base with decoder, outputText } }, stop.map Prod.fst)

def getNextOutputText (d : IncrementalDetokenizer D) (finished : Bool) :
    Text × IncrementalDetokenizer D :=
  match d.base with
  | none => ([], d)
  | some base =>
    let bufferLength := if finished then 0 else base.params.stopBufferLength
    -- less than nothing to show is not more than was shown before
    let length := base.outputText.length - bufferLength
    if base.lastOutputTextOffset < length then
      ((base.outputText.take length).drop base.lastOutputTextOffset,
        { d with base := some { base with lastOutputTextOffset := length } })
    else ([], d)

variable {decodeNext : D → List Int → Int → Text × D} {d : IncrementalDetokenizer D}

section Update

theorem decodeNew_tokenIds (decodeNext : D → List Int → Int → Text × D) (promptLen minTokens : Nat)
    (tokenIds : List Int) (decoder : D) (text : Text) (offset : Nat) (new : List Int) :
    (decodeNew decodeNext promptLen minTokens tokenIds decoder text offset new).1 =
      tokenIds ++ new := by
  induction new generalizing tokenIds decoder text offset with
  | nil => simp [decodeNew]
  | cons t new ih =>
    rw [decodeNew]
    dsimp only
    rw [ih]
    simp

theorem decodeNew_text (decodeNext : D → List Int → Int → Text × D) (promptLen minTokens : Nat)
    (tokenIds : List Int) (decoder : D) {text : Text} {offset : Nat} (hoffset : offset ≤ text.length) (new : List Int) :
    text <+: (decodeNew decodeNext promptLen minTokens tokenIds decoder text offset new).2.2.1 ∧
      offset ≤ (decodeNew decodeNext promptLen minTokens tokenIds decoder text offset new).2.2.2 ∧
      (decodeNew decodeNext promptLen minTokens tokenIds decoder text offset new).2.2.2 ≤
        (decodeNew decodeNext promptLen minTokens tokenIds decoder text offset new).2.2.1.length := by
  induction new generalizing tokenIds decoder text offset with
  | nil => exact ⟨List.prefix_rfl, Nat.le_refl _, hoffset⟩
  | cons t new ih =>
    rw [decodeNew]
    dsimp only
    obtain ⟨piece, decoder'⟩ := decodeNext decoder (tokenIds ++ [t]) t
    dsimp only
    have hlen : text.length ≤ (text ++ piece).length := by simp
    split
    · obtain ⟨hbefore, hle, hlast⟩ := ih (tokenIds ++ [t]) decoder' (Nat.le_refl (text ++ piece).length)
      exact ⟨(List.prefix_append text piece).trans hbefore, by omega, hlast⟩
    · obtain ⟨hbefore, hle, hlast⟩ := ih (tokenIds ++ [t]) decoder' (Nat.le_trans hoffset hlen)
      exact ⟨(List.prefix_append text piece).trans hbefore, hle, hlast⟩

theorem find_bounds {text sub : Text} {start : Int} {i : Nat} (hneg : start < 0)
    (h : text.find sub start = some i) : start + text.length ≤ i ∧ i ≤ text.length := by
  rw [Text.find, List.find?_range_eq_some] at h
  obtain ⟨hmatch, hlt, -⟩ := h
  simp only [hneg, if_true, decide_eq_true_eq] at hmatch
  have := List.mem_range.mp hlt
  omega

theorem checkStopStrings_bound {p : StopParams} {text : Text} {newCharCount n : Nat} {s : Text}
    (h : checkStopStrings text newCharCount p.stop p.includeStopStrInOutput = some (s, some n)) :
    text.length - newCharCount - p.stopBufferLength ≤ n := by
  rw [checkStopStrings] at h
  split at h
  · cases h
  rename_i hsome
  obtain ⟨hcount, hstop⟩ := not_or.mp hsome
  obtain ⟨stopStr, hmem, h⟩ := List.exists_of_findSome?_eq_some h
  have hne := List.length_pos_iff.mpr (p.nonempty stopStr hmem)
  have hlongest : stopStr.length ≤ (p.stop.map List.length).max?.getD 0 :=
    List.le_max?_getD_of_mem (List.mem_map_of_mem hmem)
  cases hfind : text.find stopStr (1 - newCharCount - stopStr.length) with
  | none => simp [hfind] at h
  | some i =>
    have hi := (find_bounds (by omega) hfind).1
    simp only [hfind] at h
    split at h
    · split at h
      · cases h
      · cases h
        omega
    · rename_i hexclude
      cases h
      rw [StopParams.stopBufferLength, if_pos ⟨hstop, Bool.eq_false_iff.mpr hexclude⟩]
      omega

end Update

def sentText (d : IncrementalDetokenizer D) : Text :=
  (d.base.map fun b => b.outputText.take b.lastOutputTextOffset).getD []

structure Within (d : IncrementalDetokenizer D) : Prop where
  prompt : d.promptLen ≤ d.tokenIds.length
  offset : ∀ b ∈ d.base, b.lastOutputTextOffset ≤ b.outputText.length

structure Held (d : IncrementalDetokenizer D) : Prop where
  prompt : d.promptLen ≤ d.tokenIds.length
  offset : ∀ b ∈ d.base,
    b.lastOutputTextOffset ≤ b.outputText.length - b.params.stopBufferLength

theorem Held.within (h : Held d) : Within d where
  prompt := h.prompt
  offset := fun b hb => Nat.le_trans (h.offset b hb) (Nat.sub_le _ _)

theorem length_outputTokenIds (d : IncrementalDetokenizer D) :
    d.outputTokenIds.length = d.numOutputTokens := by
  rw [outputTokenIds, List.length_drop, numOutputTokens]

theorem outputTokenIds_append {tokenIds new : List Int} (h : d.promptLen ≤ d.tokenIds.length)
    (heq : tokenIds = d.tokenIds ++ new) :
    tokenIds.drop d.promptLen = d.outputTokenIds ++ new := by
  rw [heq, outputTokenIds, List.drop_append_of_le_length h]

theorem update_nil (d : IncrementalDetokenizer D) (stopTerminated : Bool) :
    d.update decodeNext [] stopTerminated = (d, none) := by
  unfold update
  cases hb : d.base with
  | none => simp [← hb]
  | some base => rfl

theorem decoded_append_skipped (skips : Bool) {new : List Int} (hnew : new ≠ []) :
    (if skips then new.dropLast else new) ++ (if skips then new.getLast?.toList else []) = new := by
  cases skips with
  | false => simp
  | true =>
    simp only [if_true]
    rw [List.getLast?_eq_some_getLast hnew]
    exact List.dropLast_append_getLast hnew

theorem take_cut {text : Text} {offset : Nat} (hoffset : offset ≤ text.length) {stop : Option (Text × Option Nat)}
    {cut : Text} (h : (match stop with | some (_, some truncateTo) => text.take truncateTo | _ => text) = cut)
    (hcut : ∀ s n, stop = some (s, some n) → offset ≤ n) :
    offset ≤ cut.length ∧ cut.take offset = text.take offset ∧ (stop = none → cut = text) := by
  match stop, h, hcut with
  | none, rfl, _ => exact ⟨hoffset, rfl, fun _ => rfl⟩
  | some (s, none), rfl, _ => exact ⟨hoffset, rfl, nofun⟩
  | some (s, some n), rfl, hcut =>
    have hn := hcut s n rfl
    dsimp only
    rw [List.take_take, Nat.min_eq_left hn, List.length_take]
    exact ⟨Nat.le_min.mpr ⟨hn, hoffset⟩, rfl, nofun⟩

theorem update_spec (h : Held d) {new : List Int} {stopTerminated : Bool}
    {d' : IncrementalDetokenizer D} {stop : Option Text}
    (hupdate : d.update decodeNext new stopTerminated = (d', stop)) :
    d'.outputTokenIds = d.outputTokenIds ++ new ∧ d'.sentText = d.sentText ∧ Within d' ∧
      (stop = none → Held d') := by
  unfold update at hupdate
  cases hb : d.base with
  | none =>
    rw [hb] at hupdate
    cases hupdate
    refine ⟨outputTokenIds_append h.prompt rfl, ?_, ⟨?_, ?_⟩, fun _ => ⟨?_, ?_⟩⟩
    · simp [sentText, hb]
    · exact Nat.le_trans h.prompt (by simp)
    · simp
    · exact Nat.le_trans h.prompt (by simp)
    · simp
  | some base =>
    rw [hb] at hupdate
    dsimp only at hupdate
    have hoffset := h.offset base hb
    split at hupdate
    · rename_i hnil
      cases hupdate
      exact ⟨by simp [hnil], rfl, h.within, fun _ => h⟩
    rename_i hnew
    generalize hskips : (stopTerminated && !base.params.includeStopStrInOutput) = skips at hupdate
    have hsplit := decoded_append_skipped skips hnew
    generalize (if skips then new.dropLast else new) = decoded at hupdate hsplit
    generalize (if skips then new.getLast?.toList else []) = skipped at hupdate hsplit
    have htokens := decodeNew_tokenIds decodeNext d.promptLen
      base.params.minTokens d.tokenIds base.decoder base.outputText base.outputText.length decoded
    obtain ⟨hbefore, hcheck, hlast⟩ := decodeNew_text decodeNext d.promptLen
      base.params.minTokens d.tokenIds base.decoder (Nat.le_refl base.outputText.length) decoded
    generalize decodeNew decodeNext d.promptLen base.params.minTokens d.tokenIds base.decoder
      base.outputText base.outputText.length decoded = run
      at hupdate htokens hbefore hcheck hlast
    obtain ⟨tokenIds, decoder, text, offset⟩ := run
    dsimp only at hupdate htokens hbefore hcheck hlast
    subst htokens
    have hall : (d.tokenIds ++ decoded ++ skipped).drop d.promptLen = d.outputTokenIds ++ new :=
      outputTokenIds_append h.prompt (by rw [List.append_assoc, hsplit])
    have hprompt : d.promptLen ≤ (d.tokenIds ++ decoded ++ skipped).length :=
      Nat.le_trans h.prompt (by simp)
    have hlen := hbefore.length_le
    have hsent : text.take base.lastOutputTextOffset =
        base.outputText.take base.lastOutputTextOffset := by
      obtain ⟨rest, rfl⟩ := hbefore
      rw [List.take_append_of_le_length (by omega)]
    have hsentText : d.sentText = base.outputText.take base.lastOutputTextOffset := by
      simp [sentText, hb]
    generalize hstop : (if base.params.stop ≠ [] ∧
        IncrementalDetokenizer.numOutputTokens ⟨d.tokenIds ++ decoded ++ skipped, d.promptLen,
          some base⟩ > base.params.minTokens then
        checkStopStrings text (text.length - offset) base.params.stop
          base.params.includeStopStrInOutput else none) = result at hupdate
    -- wherever the text is cut, it is behind what was shown
    have hcut : ∀ s n, result = some (s, some n) → base.lastOutputTextOffset ≤ n := by
      intro s n hsn
      rw [hsn] at hstop
      split at hstop
      · have := checkStopStrings_bound hstop
        omega
      · cases hstop
    generalize hshown : (match result with
      | some (_, some truncateTo) => text.take truncateTo
      | _ => text) = outputText at hupdate
    obtain ⟨hwithin, hsame, hkept⟩ := take_cut (by omega) hshown hcut
    cases hupdate
    refine ⟨hall, ?_, ⟨hprompt, ?_⟩, fun hnone => ⟨hprompt, ?_⟩⟩
    · rw [hsentText, ← hsent, ← hsame]
      rfl
    · rintro b ⟨⟩
      exact hwithin
    · rintro b ⟨⟩
      show base.lastOutputTextOffset ≤ outputText.length - base.params.stopBufferLength
      rw [hkept (Option.map_eq_none_iff.mp hnone)]
      omega

theorem getNextOutputText_spec (h : Within d) {finished : Bool} {piece : Text}
    {d' : IncrementalDetokenizer D} (hnext : d.getNextOutputText finished = (piece, d')) :
    d'.sentText = d.sentText ++ piece ∧ d'.outputTokenIds = d.outputTokenIds ∧
      d'.outputText = d.outputText ∧ (finished = true → d'.sentText = d'.outputText) ∧
      (finished = false → Held d → Held d') := by
  unfold getNextOutputText at hnext
  cases hb : d.base with
  | none =>
    rw [hb] at hnext
    cases hnext
    simp [sentText, outputText, hb]
  | some base =>
    have hoffset := h.offset base hb
    rw [hb] at hnext
    dsimp only at hnext
    generalize hbuffer : (if finished then 0 else base.params.stopBufferLength) = buffer at hnext
    split at hnext
    · rename_i hlt
      cases hnext
      refine ⟨?_, rfl, ?_, ?_, ?_⟩
      · show base.outputText.take (base.outputText.length - buffer) = _
        rw [sentText, hb]
        show _ = base.outputText.take base.lastOutputTextOffset ++ _
        conv_lhs => rw [← List.take_append_drop base.lastOutputTextOffset
          (base.outputText.take (base.outputText.length - buffer))]
        rw [List.take_take, Nat.min_eq_left (by omega)]
      · simp [outputText, hb]
      · intro hfinished
        rw [hfinished, if_pos rfl] at hbuffer
        subst hbuffer
        show base.outputText.take (base.outputText.length - 0) = base.outputText
        simp
      · intro hfinished hheld
        rw [hfinished, if_neg Bool.false_ne_true] at hbuffer
        refine ⟨h.prompt, ?_⟩
        rintro b ⟨⟩
        show base.outputText.length - buffer ≤ base.outputText.length - base.params.stopBufferLength
        omega
    · rename_i hge
      cases hnext
      refine ⟨by simp, rfl, rfl, ?_, fun _ hheld => hheld⟩
      intro hfinished
      rw [hfinished, if_pos rfl] at hbuffer
      subst hbuffer
      simp only [sentText, outputText, hb, Option.map_some, Option.getD_some]
      exact List.take_of_length_le (by omega)

end IncrementalDetokenizer

end Vllm
