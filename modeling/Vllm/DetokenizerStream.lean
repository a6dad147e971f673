import Vllm.DetokenizerText

namespace Vllm.IncrementalDetokenizer

variable {D : Type}

inductive Call
  | update (newTokenIds : List Int) (stopTerminated : Bool)
  | getNextOutputText
  deriving DecidableEq, Repr

/-- A request with the tokens decoded and the text emitted so far; it has ended with the update that
returned a stop string or was told that a stop token came. -/
structure Stream (D : Type) where
  detokenizer : IncrementalDetokenizer D
  decoded : List Int
  emitted : Text
  returned : Option Text
  ended : Bool

namespace Stream

variable (decodeNext : D → List Int → Int → Text × D) (params : StopParams) (promptIds : List Int) (decoder : D)

def start : Stream D where
  detokenizer := {
    tokenIds := promptIds
    promptLen := promptIds.length
    base := some { params, lastOutputTextOffset := 0, outputText := [], decoder } }
  decoded := []
  emitted := []
  returned := none
  ended := false

def step (s : Stream D) : Call → Stream D
  | .update newTokenIds stopTerminated =>
    if s.ended then s
    else
      let (detokenizer, stop) := s.detokenizer.update decodeNext newTokenIds stopTerminated
      { s with
        detokenizer
        decoded := s.decoded ++ decodedOf (stopTerminated && !params.includeStopStrInOutput) newTokenIds
        returned := stop
        ended := stopTerminated || stop.isSome }
  | .getNextOutputText =>
    let (text, detokenizer) := s.detokenizer.getNextOutputText false
    { s with detokenizer, emitted := s.emitted ++ text }

def run (calls : List Call) : Stream D := calls.foldl (step decodeNext params) (start params promptIds decoder)

structure Streaming (s : Stream D) : Prop where
  sent : s.detokenizer.sentText = s.emitted
  within : Within s.detokenizer
  running : s.ended = false → Held s.detokenizer ∧
    ∃ offset, s.detokenizer = detokenizerAt decodeNext params promptIds decoder offset s.decoded []
  searched : s.returned = none → stopFound decodeNext params promptIds decoder s.decoded = none ∧
    s.detokenizer.outputText = textOf decodeNext promptIds decoder s.decoded
  returned : s.ended = false → s.returned = none

variable {decodeNext params promptIds decoder} {s : Stream D}

theorem stopFound_nil : stopFound decodeNext params promptIds decoder [] = none :=
  stopFound_of_le (Nat.zero_le _)

theorem start_eq : (start params promptIds decoder).detokenizer =
    detokenizerAt decodeNext params promptIds decoder 0 [] [] := by
  simp [start, detokenizerAt, stopFound_nil, cutText, textOf, decodeAll]

theorem streaming_start : Streaming decodeNext params promptIds decoder (start params promptIds decoder) where
  sent := rfl
  within := ⟨le_rfl, by rintro b ⟨⟩; exact le_rfl⟩
  running _ := ⟨⟨le_rfl, by rintro b ⟨⟩; exact Nat.zero_le _⟩, 0, start_eq⟩
  searched _ := ⟨stopFound_nil, rfl⟩
  returned _ := rfl

theorem Streaming.update (h : Streaming decodeNext params promptIds decoder s) (new : List Int)
    (stopTerminated : Bool) :
    Streaming decodeNext params promptIds decoder (s.step decodeNext params (.update new stopTerminated)) := by
  unfold step
  dsimp only
  split
  · exact h
  rename_i hrunning
  have hrunning := Bool.eq_false_iff.mpr hrunning
  obtain ⟨hheld, offset, hat⟩ := h.running hrunning
  obtain ⟨hnone, -⟩ := h.searched (h.returned hrunning)
  have hupdate := update_at hnone offset new stopTerminated
  rw [← hat] at hupdate
  obtain ⟨-, hsent, hwithin, hheld'⟩ := update_spec hheld hupdate
  rw [hupdate]
  refine ⟨hsent.trans h.sent, hwithin, fun hgoes => ?_, fun hreturned => ?_, fun hgoes => ?_⟩
  · obtain ⟨rfl, hstop⟩ := Bool.or_eq_false_iff.mp hgoes
    rw [Option.isSome_eq_false_iff, Option.isNone_iff_eq_none] at hstop
    exact ⟨hheld' hstop, offset, rfl⟩
  · have hfound := Option.map_eq_none_iff.mp hreturned
    refine ⟨hfound, ?_⟩
    show cutText params.includeStopStrInOutput _ _ = _
    rw [hfound]
    rfl
  · obtain ⟨-, hstop⟩ := Bool.or_eq_false_iff.mp hgoes
    rwa [Option.isSome_eq_false_iff, Option.isNone_iff_eq_none] at hstop

theorem getNextOutputText_at (offset : Nat) (tokens skipped : List Int) (finished : Bool) :
    ∃ offset', ((detokenizerAt decodeNext params promptIds decoder offset tokens skipped).getNextOutputText
      finished).2 = detokenizerAt decodeNext params promptIds decoder offset' tokens skipped := by
  unfold getNextOutputText
  simp only [detokenizerAt]
  generalize (if finished = true then 0 else params.stopBufferLength) = bufferLength
  split
  · exact ⟨_, rfl⟩
  · exact ⟨offset, rfl⟩

theorem Within.getNextOutputText {d : IncrementalDetokenizer D} (h : Within d) (finished : Bool) :
    Within (d.getNextOutputText finished).2 := by
  unfold IncrementalDetokenizer.getNextOutputText
  cases hb : d.base with
  | none => exact h
  | some base =>
    have hoffset := h.offset base hb
    dsimp only
    generalize (if finished = true then 0 else base.params.stopBufferLength) = bufferLength
    split
    · refine ⟨h.prompt, ?_⟩
      rintro b ⟨⟩
      exact Nat.sub_le _ _
    · exact h

theorem Streaming.getNextOutputText (h : Streaming decodeNext params promptIds decoder s) :
    Streaming decodeNext params promptIds decoder (s.step decodeNext params .getNextOutputText) := by
  obtain ⟨hsent, -, htext, -, hheld⟩ := getNextOutputText_spec h.within
    (Prod.eta (s.detokenizer.getNextOutputText false)).symm
  refine ⟨hsent.trans (by rw [h.sent]; rfl), ?_, fun hgoes => ?_, fun hreturned => ?_, h.returned⟩
  · exact Within.getNextOutputText h.within false
  · obtain ⟨hheldBefore, offset, hat⟩ := h.running hgoes
    obtain ⟨offset', hat'⟩ := @getNextOutputText_at D decodeNext params promptIds decoder offset s.decoded [] false
    refine ⟨hheld rfl hheldBefore, offset', ?_⟩
    rw [← hat] at hat'
    exact hat'
  · obtain ⟨hfound, hbefore⟩ := h.searched hreturned
    exact ⟨hfound, htext.trans hbefore⟩

theorem Streaming.step (h : Streaming decodeNext params promptIds decoder s) (call : Call) :
    Streaming decodeNext params promptIds decoder (s.step decodeNext params call) := by
  cases call with
  | update new stopTerminated => exact h.update new stopTerminated
  | getNextOutputText => exact h.getNextOutputText

theorem Streaming.foldl (h : Streaming decodeNext params promptIds decoder s) (calls : List Call) :
    Streaming decodeNext params promptIds decoder (calls.foldl (Stream.step decodeNext params) s) := by
  induction calls generalizing s with
  | nil => exact h
  | cons call calls ih => exact ih (h.step call)

theorem streaming_run (calls : List Call) :
    Streaming decodeNext params promptIds decoder (run decodeNext params promptIds decoder calls) :=
  streaming_start.foldl calls

theorem emitted_step (s : Stream D) (call : Call) : s.emitted <+: (s.step decodeNext params call).emitted := by
  cases call with
  | update new stopTerminated =>
    unfold Stream.step
    dsimp only
    split <;> exact List.prefix_rfl
  | getNextOutputText => exact List.prefix_append _ _

theorem emitted_foldl (s : Stream D) (calls : List Call) :
    s.emitted <+: (calls.foldl (Stream.step decodeNext params) s).emitted := by
  induction calls generalizing s with
  | nil => exact List.prefix_rfl
  | cons call calls ih => exact (emitted_step s call).trans (ih _)

theorem sentText_begins (d : IncrementalDetokenizer D) : d.sentText <+: d.outputText := by
  unfold sentText outputText
  cases d.base with
  | none => exact List.prefix_rfl
  | some base => exact List.take_prefix _ _

/-- However the tokens come and however often the text is asked for: what was emitted at any time
begins the text of the request, also after a stop string cut it. As long as no stop string was returned
the text is that of all tokens decoded, and has none behind the text of the first `min_tokens` tokens. -/
theorem emitted_and_searched (params : StopParams) (promptIds : List Int) (decoder : D) (calls : List Call) :
    (∀ before after, calls = before ++ after → (run decodeNext params promptIds decoder before).emitted <+:
      (run decodeNext params promptIds decoder calls).detokenizer.outputText) ∧
    ((run decodeNext params promptIds decoder calls).returned = none →
      (run decodeNext params promptIds decoder calls).detokenizer.outputText =
        textOf decodeNext promptIds decoder (run decodeNext params promptIds decoder calls).decoded) ∧
    ((run decodeNext params promptIds decoder calls).returned = none → ∀ stopStr ∈ params.stop, ∀ i,
      stopStr <+: (run decodeNext params promptIds decoder calls).detokenizer.outputText.drop i →
      i + stopStr.length ≤ (textOf decodeNext promptIds decoder
        ((run decodeNext params promptIds decoder calls).decoded.take params.minTokens)).length) := by
  have h := @streaming_run D decodeNext params promptIds decoder calls
  refine ⟨?_, fun hreturned => (h.searched hreturned).2, ?_⟩
  · rintro before after rfl
    have hbefore : (run decodeNext params promptIds decoder before).emitted <+:
        (run decodeNext params promptIds decoder (before ++ after)).emitted := by
      unfold run
      rw [List.foldl_append]
      exact emitted_foldl _ after
    refine hbefore.trans ?_
    rw [← h.sent]
    exact sentText_begins _
  · intro hreturned stopStr hmem i hmatch
    obtain ⟨hfound, htext⟩ := h.searched hreturned
    rw [htext] at hmatch
    rw [stopFound, firstAfter_eq_none] at hfound
    refine findAfter_eq_none.mp (hfound stopStr hmem) i hmatch ?_
    have hlen := hmatch.length_le
    have hpos := List.length_pos_iff.mpr (params.nonempty stopStr hmem)
    rw [List.length_drop] at hlen
    omega

end Stream

end Vllm.IncrementalDetokenizer
