import Vllm.Scheduler

/-! Which encoder outputs the worker looks up: the loop of `_gather_mm_embeddings` in
`gpu_model_runner.py` over the features of a request. -/

namespace Vllm

def countTake (mask : List Bool) (n : Nat) : Nat := ((mask.take n).filter id).length

theorem countTake_succ (mask : List Bool) (n : Nat) :
    countTake mask (n + 1) = countTake mask n + if mask[n]? = some true then 1 else 0 := by
  unfold countTake
  rw [List.take_add_one, List.filter_append, List.length_append]
  cases mask[n]? with
  | none => rfl
  | some b => cases b <;> rfl

theorem countTake_mono (mask : List Bool) {s e : Nat} (h : s ≤ e) : countTake mask s ≤ countTake mask e := by
  induction e, h using Nat.le_induction with
  | base => exact Nat.le_refl _
  | succ e h ih =>
    rw [countTake_succ]
    omega

theorem countTake_eq_iff {mask : List Bool} {s e : Nat} (h : s ≤ e) :
    countTake mask s = countTake mask e ↔ ∀ k, s ≤ k → k < e → mask[k]? ≠ some true := by
  induction e, h using Nat.le_induction with
  | base => exact ⟨fun _ k hs he => by omega, fun _ => rfl⟩
  | succ e h ih =>
    have hmono := countTake_mono mask h
    rw [countTake_succ]
    refine ⟨fun heq k hs he => ?_, fun hnone => ?_⟩
    · split at heq
      · omega
      · rename_i hlast
        rcases Nat.lt_succ_iff_lt_or_eq.mp he with hk | rfl
        · exact ih.mp (by omega) k hs hk
        · exact hlast
    · rw [if_neg (hnone e h (Nat.lt_succ_self e)), ih.mpr fun k hs he => hnone k hs (by omega)]
      rfl

namespace PlaceholderRange

def embedAt (p : PlaceholderRange) (k : Nat) : Bool :=
  match p.isEmbed with
  | none => true
  | some mask => mask[k]? = some true

def covers (p : PlaceholderRange) (pos : Int) : Bool :=
  p.offset ≤ pos ∧ pos < p.offset + p.length ∧ p.embedAt (pos - p.offset).toNat = true

theorem embedsCumsum_natCast {mask : List Bool} {i : Nat} {x : Int} (h : embedsCumsum mask i = some x) :
    x = countTake mask (i + 1) := by
  unfold embedsCumsum Py.index at h
  rw [if_pos (Int.natCast_nonneg i)] at h
  split at h
  · rw [Option.map_some, Int.toNat_natCast, Option.some.injEq] at h
    exact h.symm
  · cases h

theorem getEmbedsIndices_eq_iff (p : PlaceholderRange) {s e x y : Int} (hs : 0 ≤ s) (hlt : s < e) (he : e ≤ p.length)
    (h : p.getEmbedsIndicesInRange s e = some (x, y)) :
    x = y ↔ ∀ pos, p.offset + s ≤ pos → pos < p.offset + e → p.covers pos = false := by
  unfold getEmbedsIndicesInRange at h
  unfold covers embedAt
  cases hembed : p.isEmbed with
  | none =>
    rw [hembed] at h
    cases h
    refine ⟨fun heq => by omega, fun hnone => ?_⟩
    have hfirst := hnone (p.offset + s) (Int.le_refl _) (by omega)
    rw [decide_eq_false_iff_not] at hfirst
    exact absurd ⟨by omega, by omega, rfl⟩ hfirst
  | some mask =>
    rw [hembed] at h
    obtain ⟨a, rfl⟩ := Int.eq_ofNat_of_zero_le hs
    obtain ⟨b, rfl⟩ : ∃ b : Nat, e = (b + 1 : Nat) := ⟨(e - 1).toNat, by omega⟩
    have hpred : ((b + 1 : Nat) : Int) - 1 = b := by omega
    have hcounts : x = countTake mask a ∧ y = countTake mask (b + 1) := by
      cases a with
      | zero =>
        obtain ⟨y', hy, hxy⟩ := Option.bind_eq_some_iff.mp h
        cases hxy
        rw [hpred] at hy
        exact ⟨rfl, embedsCumsum_natCast hy⟩
      | succ a =>
        simp only [if_pos (show ((a + 1 : Nat) : Int) > 0 by omega)] at h
        obtain ⟨x', hx, h⟩ := Option.bind_eq_some_iff.mp h
        obtain ⟨y', hy, hxy⟩ := Option.bind_eq_some_iff.mp h
        cases hxy
        rw [show ((a + 1 : Nat) : Int) - 1 = a by omega] at hx
        rw [hpred] at hy
        exact ⟨embedsCumsum_natCast hx, embedsCumsum_natCast hy⟩
    rw [hcounts.1, hcounts.2, Int.natCast_inj, countTake_eq_iff (by omega)]
    refine ⟨fun hnone pos hle hlt => ?_, fun hnone k hle hlt => ?_⟩
    · rw [decide_eq_false_iff_not]
      exact fun hcovers => hnone (pos - p.offset).toNat (by omega) (by omega) (of_decide_eq_true hcovers.2.2)
    · have hpos := hnone (p.offset + k) (by omega) (by omega)
      rw [decide_eq_false_iff_not] at hpos
      intro hk
      refine hpos ⟨by omega, by omega, decide_eq_true ?_⟩
      rw [show ((p.offset : Int) + (k : Int) - p.offset).toNat = k by omega]
      exact hk

/-- The mask has one entry for each position. -/
structure WellFormed (p : PlaceholderRange) : Prop where
  pos : 0 < p.length
  mask : ∀ mask ∈ p.isEmbed, mask.length = p.length

theorem WellFormed.getEmbedsIndices {p : PlaceholderRange} (h : p.WellFormed) {s e : Int} (hs : 0 ≤ s) (hlt : s < e)
    (he : e ≤ p.length) : ∃ x y, p.getEmbedsIndicesInRange s e = some (x, y) := by
  unfold getEmbedsIndicesInRange
  cases hembed : p.isEmbed with
  | none => exact ⟨s, e, rfl⟩
  | some mask =>
    have hlength := h.mask mask hembed
    have hcumsum : ∀ i : Int, 0 ≤ i → i < p.length → ∃ x, embedsCumsum mask i = some x := by
      intro i hi hlt
      unfold embedsCumsum Py.index
      rw [if_pos hi, if_pos (by omega)]
      exact ⟨_, rfl⟩
    obtain ⟨y, hy⟩ := hcumsum (e - 1) (by omega) (by omega)
    by_cases hpos : s > 0
    · obtain ⟨x, hx⟩ := hcumsum (s - 1) (by omega) (by omega)
      exact ⟨x, y, by simp [hpos, hx, hy]⟩
    · exact ⟨0, y, by simp [hpos, hy]⟩

end PlaceholderRange

namespace GPUModelRunner

def lookedUp (numComputedTokens numScheduledTokens : Int) : List MultiModalFeatureSpec → List MultiModalFeatureSpec
  | [] => []
  | f :: fs =>
    let startPos : Int := f.mmPosition.offset
    let numEncoderTokens : Int := f.mmPosition.length
    if startPos ≥ numComputedTokens + numScheduledTokens then []
    else if startPos + numEncoderTokens ≤ numComputedTokens then lookedUp numComputedTokens numScheduledTokens fs
    else
      let startIdx := max (numComputedTokens - startPos) 0
      let endIdx := min (numComputedTokens - startPos + numScheduledTokens) numEncoderTokens
      if startIdx < endIdx then
        match f.mmPosition.getEmbedsIndicesInRange startIdx endIdx with
        | none => []
        | some (currEmbedsStart, currEmbedsEnd) =>
          if currEmbedsStart = currEmbedsEnd then lookedUp numComputedTokens numScheduledTokens fs
          else f :: lookedUp numComputedTokens numScheduledTokens fs
      else []

variable {numComputedTokens numScheduledTokens pos : Int} {f : MultiModalFeatureSpec} {fs : List MultiModalFeatureSpec}

theorem covers_of_lookedUp (h : f ∈ lookedUp numComputedTokens numScheduledTokens fs) :
    f ∈ fs ∧ ∃ pos, numComputedTokens ≤ pos ∧ pos < numComputedTokens + numScheduledTokens ∧
      f.mmPosition.covers pos = true := by
  induction fs with
  | nil => cases h
  | cons g fs ih =>
    have hrest : f ∈ lookedUp numComputedTokens numScheduledTokens fs → f ∈ g :: fs ∧ ∃ pos,
        numComputedTokens ≤ pos ∧ pos < numComputedTokens + numScheduledTokens ∧ f.mmPosition.covers pos = true :=
      fun hf => ⟨List.mem_cons_of_mem g (ih hf).1, (ih hf).2⟩
    unfold lookedUp at h
    dsimp only at h
    split at h
    · cases h
    · split at h
      · exact hrest h
      · split at h
        · rename_i hlt
          split at h
          · cases h
          · rename_i s e hindices
            split at h
            · exact hrest h
            · rename_i hne
              rcases List.mem_cons.mp h with rfl | h
              · rw [f.mmPosition.getEmbedsIndices_eq_iff (le_max_right _ _) hlt (min_le_right _ _) hindices] at hne
                push Not at hne
                obtain ⟨pos, hle, hltpos, hcovers⟩ := hne
                exact ⟨List.mem_cons_self, pos, by omega, by omega, Bool.eq_true_of_not_eq_false hcovers⟩
              · exact hrest h
        · cases h

theorem lookedUp_of_covers (hsorted : fs.Pairwise fun f g => f.mmPosition.offset ≤ g.mmPosition.offset)
    (hwell : ∀ g ∈ fs, g.mmPosition.WellFormed) (hf : f ∈ fs) (hle : numComputedTokens ≤ pos)
    (hlt : pos < numComputedTokens + numScheduledTokens) (hcovers : f.mmPosition.covers pos = true) :
    f ∈ lookedUp numComputedTokens numScheduledTokens fs := by
  have hrange := hcovers
  unfold PlaceholderRange.covers at hrange
  rw [decide_eq_true_eq] at hrange
  induction fs with
  | nil => cases hf
  | cons g fs ih =>
    obtain ⟨hfirst, hsorted⟩ := List.pairwise_cons.mp hsorted
    have hg := hwell g List.mem_cons_self
    have hlength := hg.pos
    have hstart : g.mmPosition.offset ≤ f.mmPosition.offset := by
      rcases List.mem_cons.mp hf with rfl | hf
      · exact Nat.le_refl _
      · exact hfirst f hf
    have hrest : f ≠ g → f ∈ lookedUp numComputedTokens numScheduledTokens fs := fun hne =>
      ih hsorted (fun g hmem => hwell g (List.mem_cons_of_mem _ hmem)) ((List.mem_cons.mp hf).resolve_left hne)
    unfold lookedUp
    dsimp only
    rw [if_neg (by omega)]
    split
    · refine hrest fun hfg => ?_
      subst hfg
      omega
    · rename_i hreach
      have hnonempty : max (numComputedTokens - g.mmPosition.offset) 0 <
          min (numComputedTokens - g.mmPosition.offset + numScheduledTokens) g.mmPosition.length := by omega
      rw [if_pos hnonempty]
      obtain ⟨x, y, hindices⟩ := hg.getEmbedsIndices (le_max_right _ _) hnonempty (min_le_right _ _)
      simp only [hindices]
      by_cases hfg : f = g
      · subst hfg
        have hne : x ≠ y := by
          rw [ne_eq, f.mmPosition.getEmbedsIndices_eq_iff (le_max_right _ _) hnonempty (min_le_right _ _) hindices]
          intro hnone
          rw [hnone pos (by omega) (by omega)] at hcovers
          cases hcovers
        rw [if_neg hne]
        exact List.mem_cons_self
      · split
        · exact hrest hfg
        · exact List.mem_cons_of_mem _ (hrest hfg)

end GPUModelRunner

end Vllm
