import Mathlib.Data.List.Find
import Vllm.Detokenizer

namespace Vllm.IncrementalDetokenizer

variable {D : Type} (decodeNext : D → List Int → Int → Text × D)

def decodeAll : List Int → D → List Int → Text × D
  | _, decoder, [] => ([], decoder)
  | tokenIds, decoder, newTokenId :: rest =>
    let (text, decoder) := decodeNext decoder (tokenIds ++ [newTokenId]) newTokenId
    let (texts, decoder) := decodeAll (tokenIds ++ [newTokenId]) decoder rest
    (text ++ texts, decoder)

theorem decodeAll_append (tokenIds : List Int) (decoder : D) (new rest : List Int) :
    decodeAll decodeNext tokenIds decoder (new ++ rest) =
      ((decodeAll decodeNext tokenIds decoder new).1 ++
        (decodeAll decodeNext (tokenIds ++ new) (decodeAll decodeNext tokenIds decoder new).2 rest).1,
      (decodeAll decodeNext (tokenIds ++ new) (decodeAll decodeNext tokenIds decoder new).2 rest).2) := by
  induction new generalizing tokenIds decoder with
  | nil => simp [decodeAll]
  | cons t new ih =>
    rw [List.cons_append, decodeAll, decodeAll]
    simp only [ih, List.append_assoc, List.singleton_append]

theorem decodeNew_eq (promptLen minTokens : Nat) (tokenIds : List Int) (decoder : D) (text : Text) (offset : Nat)
    (new : List Int) (hprompt : promptLen ≤ tokenIds.length) :
    decodeNew decodeNext promptLen minTokens tokenIds decoder text offset new =
      (tokenIds ++ new, (decodeAll decodeNext tokenIds decoder new).2,
        text ++ (decodeAll decodeNext tokenIds decoder new).1,
        if new = [] ∨ minTokens ≤ tokenIds.length - promptLen then offset
        else (text ++ (decodeAll decodeNext tokenIds decoder
          (new.take (minTokens - (tokenIds.length - promptLen)))).1).length) := by
  induction new generalizing tokenIds decoder text offset with
  | nil => simp [decodeNew, decodeAll]
  | cons t new ih =>
    have hlen : (tokenIds ++ [t]).length - promptLen = tokenIds.length - promptLen + 1 := by
      rw [List.length_append, List.length_singleton]
      omega
    rw [decodeNew, decodeAll]
    dsimp only
    rw [ih _ _ _ _ (by rw [List.length_append]; omega), hlen]
    refine Prod.ext (by simp) (Prod.ext rfl (Prod.ext (List.append_assoc _ _ _) ?_))
    dsimp only
    rcases Nat.lt_or_ge (tokenIds.length - promptLen) minTokens with hlt | hge
    · obtain ⟨k, hk⟩ : ∃ k, minTokens - (tokenIds.length - promptLen) = k + 1 :=
        ⟨minTokens - (tokenIds.length - promptLen) - 1, by omega⟩
      have hrest : minTokens - (tokenIds.length - promptLen + 1) = k := by omega
      have hbefore : ¬ (t :: new = [] ∨ minTokens ≤ tokenIds.length - promptLen) := by
        simp only [List.cons_ne_nil, false_or]
        omega
      have hcounts : minTokens ≠ 0 ∧ tokenIds.length - promptLen + 1 ≤ minTokens := by omega
      rw [if_neg hbefore, if_pos hcounts, hk, hrest, List.take_succ_cons, decodeAll]
      split
      · rename_i hend
        have hnil : new.take k = [] := by
          rcases hend with rfl | hend
          · exact List.take_nil
          · have : k = 0 := by omega
            rw [this, List.take_zero]
        rw [hnil]
        simp [decodeAll]
      · rw [List.append_assoc]
    · have hbefore : t :: new = [] ∨ minTokens ≤ tokenIds.length - promptLen := .inr hge
      have hafter : new = [] ∨ minTokens ≤ tokenIds.length - promptLen + 1 := .inr (by omega)
      have hcounts : ¬ (minTokens ≠ 0 ∧ tokenIds.length - promptLen + 1 ≤ minTokens) := by omega
      rw [if_pos hbefore, if_pos hafter, if_neg hcounts]

/-! Stop strings in the text of the tokens so far. -/

def findAfter (text : Text) (offset : Nat) (stopStr : Text) : Option Nat :=
  (List.range (text.length + 1)).find? fun i => offset < i + stopStr.length ∧ stopStr.isPrefixOf (text.drop i)

def firstAfter (stop : List Text) (text : Text) (offset : Nat) : Option (Text × Nat) :=
  stop.findSome? fun stopStr => (findAfter text offset stopStr).map (stopStr, ·)

def cutLength (includeInOutput : Bool) (found : Text × Nat) : Nat :=
  if includeInOutput then found.2 + found.1.length else found.2

theorem find_eq_findAfter {text stopStr : Text} {offset : Nat} (hoffset : offset < text.length)
    (hne : stopStr ≠ []) :
    text.find stopStr (1 - ((text.length - offset : Nat) : Int) - stopStr.length) = findAfter text offset stopStr := by
  have hpos := List.length_pos_iff.mpr hne
  have hneg : 1 - ((text.length - offset : Nat) : Int) - stopStr.length < 0 := by omega
  rw [Text.find, findAfter]
  refine List.find?_congr fun i _ => ?_
  have hstart : (1 - ((text.length - offset : Nat) : Int) - stopStr.length + text.length).toNat ≤ i ↔
      offset < i + stopStr.length := by omega
  simp only [if_pos hneg, hstart]

theorem findAfter_eq_some {text stopStr : Text} {offset i : Nat} (h : findAfter text offset stopStr = some i) :
    offset < i + stopStr.length ∧ stopStr <+: text.drop i ∧ i + stopStr.length ≤ text.length := by
  rw [findAfter, List.find?_range_eq_some] at h
  obtain ⟨hmatch, hi, -⟩ := h
  have hi := List.mem_range.mp hi
  simp only [decide_eq_true_eq, List.isPrefixOf_iff_prefix] at hmatch
  have hlen := hmatch.2.length_le
  rw [List.length_drop] at hlen
  exact ⟨hmatch.1, hmatch.2, by omega⟩

theorem findAfter_eq_none {text stopStr : Text} {offset : Nat} :
    findAfter text offset stopStr = none ↔
      ∀ i, stopStr <+: text.drop i → i ≤ text.length → i + stopStr.length ≤ offset := by
  rw [findAfter, List.find?_eq_none]
  constructor
  · intro h i hmatch hi
    have hnot := h i (List.mem_range.mpr (by omega))
    simp only [decide_eq_true_eq, List.isPrefixOf_iff_prefix, not_and] at hnot
    by_contra hlt
    exact hnot (by omega) hmatch
  · intro h i hi
    simp only [decide_eq_true_eq, List.isPrefixOf_iff_prefix, not_and]
    intro hlt hmatch
    have := h i hmatch (Nat.le_of_lt_succ (List.mem_range.mp hi))
    omega

theorem findAfter_length (text stopStr : Text) : findAfter text text.length stopStr = none := by
  cases h : findAfter text text.length stopStr with
  | none => rfl
  | some i =>
    obtain ⟨hlt, -, hle⟩ := findAfter_eq_some h
    omega

theorem firstAfter_eq_none {stop : List Text} {text : Text} {offset : Nat} :
    firstAfter stop text offset = none ↔ ∀ stopStr ∈ stop, findAfter text offset stopStr = none := by
  rw [firstAfter, List.findSome?_eq_none_iff]
  simp only [Option.map_eq_none_iff]

theorem findSome?_congr {α β : Type} {f g : α → Option β} {l : List α} (h : ∀ x ∈ l, f x = g x) :
    l.findSome? f = l.findSome? g := by
  induction l with
  | nil => rfl
  | cons x l ih =>
    rw [List.findSome?_cons, List.findSome?_cons, h x List.mem_cons_self,
      ih fun y hy => h y (List.mem_cons_of_mem _ hy)]

def truncateTo (includeInOutput : Bool) (text : Text) (found : Text × Nat) : Text × Option Nat :=
  (found.1, if includeInOutput then
    if found.2 + found.1.length ≥ text.length then none else some (found.2 + found.1.length)
  else some found.2)

theorem checkStopStrings_eq {p : StopParams} {text : Text} {offset : Nat} (hoffset : offset ≤ text.length) :
    checkStopStrings text (text.length - offset) p.stop p.includeStopStrInOutput =
      (firstAfter p.stop text offset).map (truncateTo p.includeStopStrInOutput text) := by
  rw [checkStopStrings]
  split
  · rename_i hnone
    have hfirst : firstAfter p.stop text offset = none := by
      rw [firstAfter_eq_none]
      intro stopStr hmem
      rcases hnone with hcount | hstop
      · have : offset = text.length := by omega
        rw [this, findAfter_length]
      · rw [hstop] at hmem
        cases hmem
    rw [hfirst]
    rfl
  · rename_i hsome
    have hlt : offset < text.length := by
      have := (not_or.mp hsome).1
      omega
    rw [firstAfter, List.map_findSome?]
    refine findSome?_congr fun stopStr hmem => ?_
    rw [find_eq_findAfter hlt (p.nonempty stopStr hmem)]
    show _ = ((findAfter text offset stopStr).map (stopStr, ·)).map (truncateTo p.includeStopStrInOutput text)
    cases findAfter text offset stopStr with
    | none => rfl
    | some i =>
      show _ = some (truncateTo p.includeStopStrInOutput text (stopStr, i))
      unfold truncateTo
      dsimp only
      cases p.includeStopStrInOutput with
      | false => rfl
      | true =>
        simp only [if_true]
        split <;> rfl

def cutText (includeInOutput : Bool) (text : Text) (found : Option (Text × Nat)) : Text :=
  match found with
  | none => text
  | some found => text.take (cutLength includeInOutput found)

theorem cutText_eq (includeInOutput : Bool) (text : Text) (found : Option (Text × Nat)) :
    (match found.map (truncateTo includeInOutput text) with
      | some (_, some n) => text.take n
      | _ => text) = cutText includeInOutput text found := by
  cases found with
  | none => rfl
  | some found =>
    cases includeInOutput with
    | false => rfl
    | true =>
      simp only [Option.map_some, truncateTo, if_true, cutText, cutLength]
      split
      · rename_i h
        split at h
        · cases h
        · cases h
          rfl
      · rename_i h
        split at h
        · rename_i hlong
          exact (List.take_of_length_le hlong).symm
        · exact absurd rfl (h _ _)

section State

variable (params : StopParams) (promptIds : List Int) (decoder : D)

def textOf (tokens : List Int) : Text := (decodeAll decodeNext promptIds decoder tokens).1

def stopFound (tokens : List Int) : Option (Text × Nat) :=
  firstAfter params.stop (textOf decodeNext promptIds decoder tokens)
    (textOf decodeNext promptIds decoder (tokens.take params.minTokens)).length

def detokenizerAt (offset : Nat) (tokens skipped : List Int) : IncrementalDetokenizer D where
  tokenIds := promptIds ++ tokens ++ skipped
  promptLen := promptIds.length
  base := some {
    params
    lastOutputTextOffset := offset
    outputText := cutText params.includeStopStrInOutput (textOf decodeNext promptIds decoder tokens)
      (stopFound decodeNext params promptIds decoder tokens)
    decoder := (decodeAll decodeNext promptIds decoder tokens).2 }

variable {decodeNext params promptIds decoder} {tokens : List Int}

theorem textOf_append (tokens new : List Int) : textOf decodeNext promptIds decoder (tokens ++ new) =
    textOf decodeNext promptIds decoder tokens ++
      (decodeAll decodeNext (promptIds ++ tokens) (decodeAll decodeNext promptIds decoder tokens).2 new).1 := by
  rw [textOf, decodeAll_append]
  rfl

theorem textOf_begins (tokens new : List Int) :
    textOf decodeNext promptIds decoder tokens <+: textOf decodeNext promptIds decoder (tokens ++ new) := by
  rw [textOf_append]
  exact List.prefix_append _ _

theorem stopFound_of_le (h : tokens.length ≤ params.minTokens) :
    stopFound decodeNext params promptIds decoder tokens = none := by
  rw [stopFound, List.take_of_length_le h, firstAfter_eq_none]
  exact fun stopStr _ => findAfter_length _ stopStr

theorem firstAfter_append (hnone : stopFound decodeNext params promptIds decoder tokens = none) (new : List Int) :
    firstAfter params.stop (textOf decodeNext promptIds decoder (tokens ++ new))
      (textOf decodeNext promptIds decoder tokens).length =
    firstAfter params.stop (textOf decodeNext promptIds decoder (tokens ++ new))
      (textOf decodeNext promptIds decoder (tokens.take params.minTokens)).length := by
  rw [stopFound, firstAfter_eq_none] at hnone
  obtain ⟨more, hmore⟩ := @textOf_begins D decodeNext promptIds decoder tokens new
  have hle : (textOf decodeNext promptIds decoder (tokens.take params.minTokens)).length ≤
      (textOf decodeNext promptIds decoder tokens).length := by
    have h := @textOf_begins D decodeNext promptIds decoder (tokens.take params.minTokens)
      (tokens.drop params.minTokens)
    rw [List.take_append_drop] at h
    exact h.length_le
  refine findSome?_congr fun stopStr hmem => congrArg (Option.map _) (List.find?_congr fun i _ => ?_)
  have hsearched := findAfter_eq_none.mp (hnone stopStr hmem) i
  have hiff : ((textOf decodeNext promptIds decoder tokens).length < i + stopStr.length ∧
      stopStr.isPrefixOf ((textOf decodeNext promptIds decoder (tokens ++ new)).drop i) = true) ↔
      ((textOf decodeNext promptIds decoder (tokens.take params.minTokens)).length < i + stopStr.length ∧
      stopStr.isPrefixOf ((textOf decodeNext promptIds decoder (tokens ++ new)).drop i) = true) := by
    refine ⟨fun h => ⟨by omega, h.2⟩, fun h => ⟨?_, h.2⟩⟩
    by_contra hle'
    -- an occurrence in the old text
    have hmatch := List.isPrefixOf_iff_prefix.mp h.2
    have hi : i ≤ (textOf decodeNext promptIds decoder tokens).length := by omega
    rw [← hmore, List.drop_append_of_le_length hi] at hmatch
    have hold : stopStr <+: (textOf decodeNext promptIds decoder tokens).drop i :=
      List.prefix_of_prefix_length_le hmatch (List.prefix_append _ _) (by rw [List.length_drop]; omega)
    have := hsearched hold hi
    omega
  simp only [hiff]

theorem firstAfter_offset (hnone : stopFound decodeNext params promptIds decoder tokens = none) (new : List Int) :
    firstAfter params.stop (textOf decodeNext promptIds decoder (tokens ++ new))
      (if new = [] ∨ params.minTokens ≤ tokens.length then (textOf decodeNext promptIds decoder tokens).length
      else (textOf decodeNext promptIds decoder (tokens ++ new.take (params.minTokens - tokens.length))).length) =
    stopFound decodeNext params promptIds decoder (tokens ++ new) := by
  split
  · rename_i h
    rcases h with rfl | hmin
    · rw [firstAfter_append hnone, stopFound, List.append_nil]
    · rw [firstAfter_append hnone, stopFound, List.take_append_of_le_length hmin]
  · rename_i h
    have hlt : tokens.length ≤ params.minTokens := by
      have := not_or.mp h
      omega
    rw [stopFound, List.take_append, List.take_of_length_le hlt]

theorem offset_le (tokens new : List Int) :
    (if new = [] ∨ params.minTokens ≤ tokens.length then (textOf decodeNext promptIds decoder tokens).length
      else (textOf decodeNext promptIds decoder (tokens ++ new.take (params.minTokens - tokens.length))).length) ≤
    (textOf decodeNext promptIds decoder (tokens ++ new)).length := by
  split
  · exact (textOf_begins tokens new).length_le
  · have h := @textOf_begins D decodeNext promptIds decoder (tokens ++ new.take (params.minTokens - tokens.length))
      (new.drop (params.minTokens - tokens.length))
    rw [List.append_assoc, List.take_append_drop] at h
    exact h.length_le

def decodedOf (skips : Bool) (new : List Int) : List Int := if skips then new.dropLast else new

def skippedOf (skips : Bool) (new : List Int) : List Int := if skips then new.getLast?.toList else []

theorem update_at (hnone : stopFound decodeNext params promptIds decoder tokens = none) (offset : Nat)
    (new : List Int) (stopTerminated : Bool) :
    (detokenizerAt decodeNext params promptIds decoder offset tokens []).update decodeNext new stopTerminated =
      (detokenizerAt decodeNext params promptIds decoder offset
          (tokens ++ decodedOf (stopTerminated && !params.includeStopStrInOutput) new)
          (skippedOf (stopTerminated && !params.includeStopStrInOutput) new),
        (stopFound decodeNext params promptIds decoder
          (tokens ++ decodedOf (stopTerminated && !params.includeStopStrInOutput) new)).map Prod.fst) := by
  obtain ⟨skips, hskips⟩ : ∃ skips, skips = (stopTerminated && !params.includeStopStrInOutput) := ⟨_, rfl⟩
  rw [← hskips]
  by_cases hnew : new = []
  · subst hnew
    have hdecoded : decodedOf skips [] = ([] : List Int) := by cases skips <;> rfl
    have hskipped : skippedOf skips [] = ([] : List Int) := by cases skips <;> rfl
    rw [hdecoded, hskipped, List.append_nil, hnone]
    exact update_nil _ _
  · have htext : cutText params.includeStopStrInOutput (textOf decodeNext promptIds decoder tokens)
        (stopFound decodeNext params promptIds decoder tokens) = textOf decodeNext promptIds decoder tokens := by
      rw [hnone]
      rfl
    have hlen : (promptIds ++ tokens).length - promptIds.length = tokens.length := by
      rw [List.length_append, Nat.add_sub_cancel_left]
    have hrun := decodeNew_eq decodeNext promptIds.length params.minTokens (promptIds ++ tokens)
      (decodeAll decodeNext promptIds decoder tokens).2 (textOf decodeNext promptIds decoder tokens)
      (textOf decodeNext promptIds decoder tokens).length (decodedOf skips new) (by simp)
    rw [hlen, ← textOf_append, ← textOf_append] at hrun
    have hdecoder : (decodeAll decodeNext (promptIds ++ tokens)
        (decodeAll decodeNext promptIds decoder tokens).2 (decodedOf skips new)).2 =
        (decodeAll decodeNext promptIds decoder (tokens ++ decodedOf skips new)).2 := by
      rw [decodeAll_append]
    rw [hdecoder] at hrun
    have hoffset := firstAfter_offset hnone (decodedOf skips new)
    have hbound := @offset_le D decodeNext params promptIds decoder tokens (decodedOf skips new)
    have hdecoded : (if (stopTerminated && !params.includeStopStrInOutput) = true then new.dropLast else new) =
        decodedOf skips new := by rw [hskips]; rfl
    have hskipped : (if (stopTerminated && !params.includeStopStrInOutput) = true then new.getLast?.toList else []) =
        skippedOf skips new := by rw [hskips]; rfl
    unfold update
    simp only [detokenizerAt, List.append_nil, if_neg hnew, htext, hdecoded, hskipped, hrun]
    generalize (if decodedOf skips new = [] ∨ params.minTokens ≤ tokens.length then
      (textOf decodeNext promptIds decoder tokens).length
      else (textOf decodeNext promptIds decoder
        (tokens ++ (decodedOf skips new).take (params.minTokens - tokens.length))).length) = checkOffset
      at hoffset hbound ⊢
    generalize hcount : numOutputTokens ⟨promptIds ++ tokens ++ decodedOf skips new ++ skippedOf skips new,
      promptIds.length, _⟩ = count
    have hfew : count ≤ params.minTokens → (tokens ++ decodedOf skips new).length ≤ params.minTokens := by
      intro hle
      rw [← hcount, numOutputTokens] at hle
      simp only [List.length_append] at hle ⊢
      omega
    have hcheck : (if params.stop ≠ [] ∧ count > params.minTokens then
        checkStopStrings (textOf decodeNext promptIds decoder (tokens ++ decodedOf skips new))
          ((textOf decodeNext promptIds decoder (tokens ++ decodedOf skips new)).length - checkOffset) params.stop
          params.includeStopStrInOutput else none) =
        (stopFound decodeNext params promptIds decoder (tokens ++ decodedOf skips new)).map
          (truncateTo params.includeStopStrInOutput
            (textOf decodeNext promptIds decoder (tokens ++ decodedOf skips new))) := by
      split
      · rw [checkStopStrings_eq hbound, hoffset]
      · rename_i hno
        have hfound : stopFound decodeNext params promptIds decoder (tokens ++ decodedOf skips new) = none := by
          by_cases hstop : params.stop = []
          · rw [stopFound, hstop]
            rfl
          · exact stopFound_of_le (hfew (by
              by_contra hgt
              exact hno ⟨hstop, by omega⟩))
        rw [hfound]
        rfl
    rw [hcheck, ← cutText_eq, Option.map_map, ← List.append_assoc promptIds tokens]
    rfl

end State

end Vllm.IncrementalDetokenizer
