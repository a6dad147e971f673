import Vllm.Lib.Borders
import Vllm.Lib.Result

/-! `_find_longest_matched_ngram_and_propose_tokens` of `ngram_proposer.py`. -/

namespace Vllm.NgramProposer

variable {α : Type} [DecidableEq α]

structure Search where
  prevLps : Nat
  i : Nat
  longestNgram : Nat
  position : Nat
  lps : List Nat
  deriving DecidableEq, Repr

def Search.start (maxNgram : Nat) : Search := ⟨0, 1, 0, 0, List.replicate maxNgram 0⟩

def capped (maxNgram : Nat) (lps : List Nat) (prevLps : Nat) : Result Nat :=
  if prevLps = maxNgram then Result.getItem lps (maxNgram - 1) else .ok prevLps

def step (tokens : List α) (maxNgram : Nat) (s : Search) : Result Search := do
  let here ← Result.getItem tokens s.i
  let next ← Result.getItem tokens s.prevLps
  if next = here then
    let prevLps := s.prevLps + 1
    let lps := if s.i < maxNgram then s.lps.set s.i prevLps else s.lps
    return {
      prevLps := ← capped maxNgram lps prevLps
      i := s.i + 1
      longestNgram := if prevLps ≥ s.longestNgram then prevLps else s.longestNgram
      position := if prevLps ≥ s.longestNgram then s.i else s.position
      lps }
  else if s.prevLps ≠ 0 then
    return { s with prevLps := ← Result.getItem s.lps (s.prevLps - 1) }
  else return { s with i := s.i + 1 }

def search (tokens : List α) (maxNgram : Nat) : Nat → Search → Result (Option Search)
  | 0, _ => .ok none
  | fuel + 1, s =>
    if s.i < tokens.length then do search tokens maxNgram fuel (← step tokens maxNgram s) else .ok (some s)

/-- `none` if the fuel runs out. -/
def findLongestMatchedNgramAndProposeTokens (fuel : Nat) (originTokens : List α) (minNgram maxNgram : Nat)
    (maxModelLen k : Int) : Result (Option (List α)) :=
  let totalToken := originTokens.length
  if totalToken < minNgram then .ok (some [])
  else
    let k := min k (maxModelLen - totalToken)
    if k ≤ 0 then .ok (some [])
    else do
      match ← search originTokens.reverse maxNgram fuel (.start maxNgram) with
      | none => return none
      | some s =>
        if s.longestNgram < minNgram then return some []
        else
          let startPosition := totalToken - 1 - s.position + s.longestNgram
          let k := min k (totalToken - startPosition)
          return some ((originTokens.drop startPosition).take k.toNat)

end Vllm.NgramProposer

/-! The loop finds the longest match, and of those of that length the one found last. -/

namespace Vllm.NgramProposer

open Borders

variable {α : Type} {tokens : List α} {maxNgram : Nat} {s s' : Search}

structure Found (tokens : List α) (maxNgram i longestNgram position : Nat) : Prop where
  best : ∀ j, 1 ≤ j → j < i → ∀ v, 1 ≤ v → v ≤ maxNgram → v ≤ j → Border tokens v (j + 1) →
    v ≤ longestNgram ∧ (v = longestNgram → j ≤ position)
  attained : longestNgram ≠ 0 → 1 ≤ position ∧ position < i ∧ longestNgram ≤ maxNgram ∧ longestNgram ≤ position ∧
    Border tokens longestNgram (position + 1)

structure Table (tokens : List α) (maxNgram i : Nat) (lps : List Nat) : Prop where
  length : lps.length = maxNgram
  done : ∀ j < maxNgram, 1 ≤ j → j < i → ∃ w, lps[j]? = some w ∧ LongestBorder tokens w (j + 1)
  todo : ∀ j < maxNgram, j = 0 ∨ i ≤ j → lps[j]? = some 0

structure Inv (tokens : List α) (maxNgram : Nat) (s : Search) : Prop where
  pos : 1 ≤ s.i
  le : s.i ≤ tokens.length
  prev_lt : s.prevLps < maxNgram ∧ s.prevLps < s.i
  border : Border tokens s.prevLps s.i
  -- the longer ones have been tried
  tried : ∀ v < maxNgram, v < s.i → Border tokens v s.i → s.prevLps < v → tokens[v]? ≠ tokens[s.i]?
  table : Table tokens maxNgram s.i s.lps
  found : Found tokens maxNgram s.i s.longestNgram s.position

theorem longestBorder_one (tokens : List α) : LongestBorder tokens 0 1 :=
  ⟨Nat.zero_lt_one, border_zero tokens 1, fun w hw _ => by omega⟩

theorem Table.get {i j : Nat} {lps : List Nat} (h : Table tokens maxNgram i lps) (hj : j < maxNgram) (hi : j < i) :
    ∃ w, lps[j]? = some w ∧ LongestBorder tokens w (j + 1) := by
  rcases Nat.eq_zero_or_pos j with rfl | hpos
  · exact ⟨0, h.todo 0 hj (.inl rfl), longestBorder_one tokens⟩
  · exact h.done j hj hpos hi

theorem inv_start (hmax : 0 < maxNgram) (hlen : 0 < tokens.length) : Inv tokens maxNgram (.start maxNgram) where
  pos := le_rfl
  le := hlen
  prev_lt := ⟨hmax, Nat.zero_lt_one⟩
  border := border_zero tokens 1
  tried v _ hv _ hpos := by
    change v < 1 at hv
    change 0 < v at hpos
    omega
  table := {
    length := List.length_replicate
    done := fun j _ hj hlt => by
      change j < 1 at hlt
      omega
    todo := fun j hj _ => List.getElem?_replicate_of_lt hj }
  found := {
    best := fun j hj hlt => by
      change j < 1 at hlt
      omega
    attained := fun h => absurd rfl h }

theorem Inv.match_le (h : Inv tokens maxNgram s) (hi : s.i < tokens.length) {v : Nat} (hmax : v < maxNgram)
    (hv : v < s.i) (hborder : Border tokens (v + 1) (s.i + 1)) : v ≤ s.prevLps := by
  obtain ⟨hborder, heq⟩ := (border_succ hi).mp hborder
  by_contra hlt
  exact h.tried v hmax hv hborder (by omega) heq

theorem Table.set {i w : Nat} {lps : List Nat} (h : Table tokens maxNgram i lps) (hi : 1 ≤ i)
    (hw : i < maxNgram → LongestBorder tokens w (i + 1)) :
    Table tokens maxNgram (i + 1) (if i < maxNgram then lps.set i w else lps) := by
  by_cases hlt : i < maxNgram
  · rw [if_pos hlt]
    refine ⟨by rw [List.length_set, h.length], fun j hj hpos hji => ?_, fun j hj hji => ?_⟩
    · rcases Nat.lt_or_ge j i with hji' | hji'
      · rw [List.getElem?_set_ne (by omega)]
        exact h.done j hj hpos hji'
      · have : j = i := by omega
        subst this
        exact ⟨w, List.getElem?_set_self (h.length.symm ▸ hj), hw hj⟩
    · rw [List.getElem?_set_ne (by omega)]
      exact h.todo j hj (by omega)
  · rw [if_neg hlt]
    exact ⟨h.length, fun j hj hpos hji => h.done j hj hpos (by omega), fun j hj hji => h.todo j hj (by omega)⟩

theorem Table.skip {i : Nat} {lps : List Nat} (h : Table tokens maxNgram i lps)
    (hw : i < maxNgram → LongestBorder tokens 0 (i + 1)) : Table tokens maxNgram (i + 1) lps := by
  refine ⟨h.length, fun j hj hpos hji => ?_, fun j hj hji => h.todo j hj (by omega)⟩
  rcases Nat.lt_or_ge j i with hji' | hji'
  · exact h.done j hj hpos hji'
  · have : j = i := by omega
    subst this
    exact ⟨0, h.todo j hj (.inr le_rfl), hw hj⟩

theorem Found.next {i w longestNgram position : Nat} (h : Found tokens maxNgram i longestNgram position)
    (hi : 1 ≤ i) (hmax : w ≤ maxNgram) (hle : w ≤ i) (hborder : Border tokens w (i + 1))
    (hlongest : ∀ v ≤ maxNgram, v ≤ i → Border tokens v (i + 1) → v ≤ w) :
    Found tokens maxNgram (i + 1) (if w ≥ longestNgram then w else longestNgram)
      (if w ≥ longestNgram then i else position) := by
  constructor
  · intro j hj hji v hv hvmax hvj hvborder
    rcases Nat.lt_or_ge j i with hji' | hji'
    · obtain ⟨hbest, hposition⟩ := h.best j hj hji' v hv hvmax hvj hvborder
      split
      · exact ⟨by omega, fun _ => by omega⟩
      · exact ⟨hbest, hposition⟩
    · have : j = i := by omega
      subst this
      have hvw := hlongest v hvmax hvj hvborder
      split
      · exact ⟨hvw, fun _ => le_rfl⟩
      · exact ⟨by omega, fun _ => by omega⟩
  · intro hne
    split
    · exact ⟨hi, Nat.lt_succ_self i, hmax, hle, hborder⟩
    · rename_i hlt
      rw [if_neg hlt] at hne
      obtain ⟨hpos, hlast, hrest⟩ := h.attained hne
      exact ⟨hpos, Nat.lt_succ_of_lt hlast, hrest⟩

theorem Found.skip {i longestNgram position : Nat} (h : Found tokens maxNgram i longestNgram position)
    (hnone : ∀ v ≤ maxNgram, v ≤ i → Border tokens v (i + 1) → v = 0) :
    Found tokens maxNgram (i + 1) longestNgram position := by
  constructor
  · intro j hj hji v hv hvmax hvj hvborder
    rcases Nat.lt_or_ge j i with hji' | hji'
    · exact h.best j hj hji' v hv hvmax hvj hvborder
    · have : j = i := by omega
      subst this
      exact absurd (hnone v hvmax hvj hvborder) (by omega)
  · intro hne
    obtain ⟨hpos, hlast, hrest⟩ := h.attained hne
    exact ⟨hpos, Nat.lt_succ_of_lt hlast, hrest⟩

theorem getItem_ok {α : Type} {l : List α} {i : Nat} (hi : i < l.length) : Result.getItem l i = .ok (l.get ⟨i, hi⟩) :=
  Result.getItem_eq_ok.mpr (List.getElem?_eq_getElem hi)

/-- The longest match of at most `maxNgram` tokens at position `i` when the next token follows `prev_lps`. -/
theorem Inv.longest (h : Inv tokens maxNgram s) (hi : s.i < tokens.length) {v : Nat} (hmax : v ≤ maxNgram)
    (hv : v ≤ s.i) (hborder : Border tokens v (s.i + 1)) : v ≤ s.prevLps + 1 := by
  cases v with
  | zero => omega
  | succ v => exact Nat.succ_le_succ (h.match_le hi hmax hv hborder)

theorem Inv.capped (h : Inv tokens maxNgram s) (hi : s.i < tokens.length)
    (hborder : Border tokens (s.prevLps + 1) (s.i + 1)) {lps : List Nat} (htable : Table tokens maxNgram (s.i + 1) lps) :
    ∃ prevLps, NgramProposer.capped maxNgram lps (s.prevLps + 1) = .ok prevLps ∧ prevLps < maxNgram ∧
      prevLps ≤ s.prevLps + 1 ∧ Border tokens prevLps (s.i + 1) ∧
      ∀ v < maxNgram, v < s.i + 1 → Border tokens v (s.i + 1) → v ≤ prevLps := by
  obtain ⟨hmax, hlt⟩ := h.prev_lt
  unfold NgramProposer.capped
  by_cases hfull : s.prevLps + 1 = maxNgram
  · obtain ⟨w, hget, hlongest⟩ := @Table.get _ _ _ _ (maxNgram - 1) _ htable (by omega) (by omega)
    have hsucc : maxNgram - 1 + 1 = maxNgram := by omega
    rw [hsucc] at hlongest
    rw [hfull] at hborder
    refine ⟨w, ?_, hlongest.lt, by have := hlongest.lt; omega, hlongest.border.trans hborder, ?_⟩
    · rw [if_pos hfull, Result.getItem_eq_ok.mpr hget]
    · intro v hv _ hvborder
      exact hlongest.le_of_lt hborder hvborder hv
  · rw [if_neg hfull]
    refine ⟨s.prevLps + 1, rfl, by omega, le_rfl, hborder, fun v hv hvi hvborder => ?_⟩
    exact h.longest hi hv.le (by omega) hvborder

theorem get_eq_iff {i j : Nat} (hi : i < tokens.length) (hj : j < tokens.length) :
    tokens.get ⟨i, hi⟩ = tokens.get ⟨j, hj⟩ ↔ tokens[i]? = tokens[j]? := by
  rw [List.getElem?_eq_getElem hi, List.getElem?_eq_getElem hj, Option.some_inj]
  rfl

theorem Inv.step_match [DecidableEq α] (h : Inv tokens maxNgram s) (hi : s.i < tokens.length)
    (heq : tokens[s.prevLps]? = tokens[s.i]?) :
    ∃ s', step tokens maxNgram s = .ok s' ∧ Inv tokens maxNgram s' ∧ s'.i = s.i + 1 ∧
      s'.prevLps ≤ s.prevLps + 1 := by
  obtain ⟨hmax, hlt⟩ := h.prev_lt
  have hborder : Border tokens (s.prevLps + 1) (s.i + 1) := (border_succ hi).mpr ⟨h.border, heq⟩
  have htable : Table tokens maxNgram (s.i + 1)
      (if s.i < maxNgram then s.lps.set s.i (s.prevLps + 1) else s.lps) :=
    h.table.set h.pos fun hlt' => ⟨by omega, hborder, fun w hw hwborder =>
      h.longest hi (by omega) (by omega) hwborder⟩
  obtain ⟨prevLps, hcapped, hprev, hle, hprevBorder, htried⟩ := h.capped hi hborder htable
  have hprevLt : s.prevLps < tokens.length := by omega
  have hsame : tokens.get ⟨s.prevLps, hprevLt⟩ = tokens.get ⟨s.i, hi⟩ := (get_eq_iff hprevLt hi).mpr heq
  refine ⟨_, by
    rw [step, getItem_ok hi, Result.ok_bind, getItem_ok hprevLt, Result.ok_bind, if_pos hsame]
    simp only [hcapped, Result.ok_bind]
    rfl, ?_, rfl, hle⟩
  exact {
    pos := Nat.le_succ_of_le h.pos
    le := hi
    prev_lt := ⟨hprev, by show prevLps < s.i + 1; omega⟩
    border := hprevBorder
    tried := fun v hv hvi hvborder hgt => absurd (htried v hv hvi hvborder) (by change prevLps < v at hgt; omega)
    table := htable
    found := h.found.next h.pos hmax hlt hborder fun v hv hvi hvborder => h.longest hi hv hvi hvborder }

theorem Inv.step_fallback [DecidableEq α] (h : Inv tokens maxNgram s) (hi : s.i < tokens.length)
    (hne : tokens[s.prevLps]? ≠ tokens[s.i]?) (hpos : s.prevLps ≠ 0) :
    ∃ s', step tokens maxNgram s = .ok s' ∧ Inv tokens maxNgram s' ∧ s'.i = s.i ∧ s'.prevLps < s.prevLps := by
  obtain ⟨hmax, hlt⟩ := h.prev_lt
  obtain ⟨w, hget, hlongest⟩ := @Table.get _ _ _ _ (s.prevLps - 1) _ h.table (by omega) (by omega)
  have hsucc : s.prevLps - 1 + 1 = s.prevLps := by omega
  rw [hsucc] at hlongest
  have hprevLt : s.prevLps < tokens.length := by omega
  have hdiff : ¬ tokens.get ⟨s.prevLps, hprevLt⟩ = tokens.get ⟨s.i, hi⟩ := mt (get_eq_iff hprevLt hi).mp hne
  refine ⟨{ s with prevLps := w }, by
    rw [step, getItem_ok hi, Result.ok_bind, getItem_ok hprevLt, Result.ok_bind, if_neg hdiff, if_pos hpos,
      Result.getItem_eq_ok.mpr hget]
    rfl, ?_, rfl, hlongest.lt⟩
  have hwlt := hlongest.lt
  exact {
    pos := h.pos
    le := h.le
    prev_lt := ⟨by show w < maxNgram; omega, by show w < s.i; omega⟩
    border := hlongest.border.trans h.border
    tried := fun v hv hvi hvborder hgt => by
      rcases Nat.lt_trichotomy v s.prevLps with hvp | rfl | hvp
      · exact absurd (hlongest.le_of_lt h.border hvborder hvp) (by change w < v at hgt; omega)
      · exact hne
      · exact h.tried v hv hvi hvborder hvp
    table := h.table
    found := h.found }

theorem Inv.step_advance [DecidableEq α] (h : Inv tokens maxNgram s) (hi : s.i < tokens.length)
    (hne : tokens[s.prevLps]? ≠ tokens[s.i]?) (hzero : s.prevLps = 0) :
    ∃ s', step tokens maxNgram s = .ok s' ∧ Inv tokens maxNgram s' ∧ s'.i = s.i + 1 ∧ s'.prevLps = 0 := by
  obtain ⟨hmax, hlt⟩ := h.prev_lt
  have hprevLt : s.prevLps < tokens.length := by omega
  have hdiff : ¬ tokens.get ⟨s.prevLps, hprevLt⟩ = tokens.get ⟨s.i, hi⟩ := mt (get_eq_iff hprevLt hi).mp hne
  have hnone : ∀ v ≤ maxNgram, v ≤ s.i → Border tokens v (s.i + 1) → v = 0 := by
    intro v hv hvi hvborder
    cases v with
    | zero => rfl
    | succ v =>
      have hv0 : v = 0 := by
        have := h.match_le hi hv hvi hvborder
        omega
      subst hv0
      exact absurd ((border_succ hi).mp hvborder).2 (hzero ▸ hne)
  refine ⟨{ s with i := s.i + 1 }, by
    rw [step, getItem_ok hi, Result.ok_bind, getItem_ok hprevLt, Result.ok_bind, if_neg hdiff, if_neg fun h => h hzero]
    rfl, ?_, rfl, hzero⟩
  exact {
    pos := Nat.le_succ_of_le h.pos
    le := hi
    prev_lt := ⟨hmax, Nat.lt_succ_of_lt hlt⟩
    border := by
      show Border tokens s.prevLps (s.i + 1)
      rw [hzero]
      exact border_zero tokens _
    tried := fun v hv hvi hvborder hgt => by
      have := hnone v hv.le (Nat.le_of_lt_succ hvi) hvborder
      change s.prevLps < v at hgt
      omega
    table := h.table.skip fun hlt' => ⟨Nat.succ_pos _, border_zero tokens _, fun w hw hwborder => by
      have := hnone w (by omega) (by omega) hwborder
      omega⟩
    found := h.found.skip hnone }

theorem Inv.step [DecidableEq α] (h : Inv tokens maxNgram s) (hi : s.i < tokens.length) :
    ∃ s', step tokens maxNgram s = .ok s' ∧ Inv tokens maxNgram s' ∧
      2 * (tokens.length - s'.i) + s'.prevLps < 2 * (tokens.length - s.i) + s.prevLps := by
  by_cases heq : tokens[s.prevLps]? = tokens[s.i]?
  · obtain ⟨s', hok, hinv, hnext, hle⟩ := h.step_match hi heq
    exact ⟨s', hok, hinv, by omega⟩
  · by_cases hzero : s.prevLps = 0
    · obtain ⟨s', hok, hinv, hnext, hle⟩ := h.step_advance hi heq hzero
      exact ⟨s', hok, hinv, by omega⟩
    · obtain ⟨s', hok, hinv, hnext, hle⟩ := h.step_fallback hi heq hzero
      exact ⟨s', hok, hinv, by omega⟩

theorem search_ok [DecidableEq α] {fuel : Nat} (h : Inv tokens maxNgram s)
    (hfuel : 2 * (tokens.length - s.i) + s.prevLps < fuel) :
    ∃ s', search tokens maxNgram fuel s = .ok (some s') ∧ Inv tokens maxNgram s' ∧ s'.i = tokens.length := by
  induction fuel generalizing s with
  | zero => omega
  | succ fuel ih =>
    rw [search]
    split
    · rename_i hi
      obtain ⟨next, hok, hinv, hless⟩ := h.step hi
      obtain ⟨last, hlast, hrest⟩ := ih hinv (by omega)
      refine ⟨last, ?_, hrest⟩
      rw [hok]
      exact hlast
    · exact ⟨s, rfl, h, Nat.le_antisymm h.le (by omega)⟩

/-- The last `n` tokens also occur from position `p` on, ending earlier. -/
def Occurs (origin : List α) (n p : Nat) : Prop :=
  p + n < origin.length ∧ (origin.drop p).take n = origin.drop (origin.length - n)

/-- Brute force: the longest match of a length in the range, and its first place. -/
structure LongestMatch (origin : List α) (minNgram maxNgram n p : Nat) : Prop where
  range : minNgram ≤ n ∧ n ≤ maxNgram
  occurs : Occurs origin n p
  longest : ∀ n' p', minNgram ≤ n' → n' ≤ maxNgram → Occurs origin n' p' → n' ≤ n
  first : ∀ p', Occurs origin n p' → p ≤ p'

variable {origin : List α}

theorem occurs_iff {n i : Nat} (hi : i < origin.length) :
    Occurs origin n (origin.length - 1 - i) ↔ n ≤ i ∧ Border origin.reverse n (i + 1) := by
  have hlast : origin.length - (i + 1) = origin.length - 1 - i := by omega
  rw [Occurs, Border, List.take_reverse, List.take_reverse, List.reverse_suffix, List.prefix_iff_eq_take,
    List.length_drop, hlast]
  constructor
  · rintro ⟨hlt, heq⟩
    have hn : origin.length - (origin.length - n) = n := by omega
    rw [hn]
    exact ⟨by omega, by omega, heq.symm⟩
  · rintro ⟨hle, -, heq⟩
    have hn : origin.length - (origin.length - n) = n := by omega
    rw [hn] at heq
    exact ⟨by omega, heq.symm⟩

theorem Occurs.place {n p : Nat} (h : Occurs origin n p) : ∃ i, i < origin.length ∧ p = origin.length - 1 - i ∧
    n ≤ i ∧ Border origin.reverse n (i + 1) := by
  have hlt := h.1
  refine ⟨origin.length - 1 - p, by omega, by omega, ?_⟩
  rw [← occurs_iff (by omega)]
  have hp : origin.length - 1 - (origin.length - 1 - p) = p := by omega
  rwa [hp]

theorem Found.best_of_occurs {longestNgram position n p : Nat}
    (h : Found origin.reverse maxNgram origin.length longestNgram position) (hn : 1 ≤ n) (hmax : n ≤ maxNgram)
    (hoccurs : Occurs origin n p) :
    n ≤ longestNgram ∧ (n = longestNgram → origin.length - 1 - position ≤ p) := by
  obtain ⟨i, hi, rfl, hle, hborder⟩ := hoccurs.place
  obtain ⟨hbest, hposition⟩ := h.best i (by omega) hi n hn hmax hle hborder
  exact ⟨hbest, fun heq => by have := hposition heq; omega⟩

theorem Found.longestMatch {longestNgram position minNgram : Nat}
    (h : Found origin.reverse maxNgram origin.length longestNgram position) (hmin : 1 ≤ minNgram)
    (hle : minNgram ≤ longestNgram) :
    LongestMatch origin minNgram maxNgram longestNgram (origin.length - 1 - position) := by
  obtain ⟨-, hlast, hmax, hplace, hborder⟩ := h.attained (by omega)
  exact {
    range := ⟨hle, hmax⟩
    occurs := (occurs_iff hlast).mpr ⟨hplace, hborder⟩
    longest := fun n' p' hmin' hmax' hoccurs => (h.best_of_occurs (hmin.trans hmin') hmax' hoccurs).1
    first := fun p' hoccurs => (h.best_of_occurs (hmin.trans hle) hmax hoccurs).2 rfl }

theorem LongestMatch.unique {minNgram n p n' p' : Nat} (h : LongestMatch origin minNgram maxNgram n p)
    (h' : LongestMatch origin minNgram maxNgram n' p') : n = n' ∧ p = p' := by
  have hn : n = n' := Nat.le_antisymm (h'.longest n p h.range.1 h.range.2 h.occurs)
    (h.longest n' p' h'.range.1 h'.range.2 h'.occurs)
  subst hn
  exact ⟨rfl, Nat.le_antisymm (h.first p' h'.occurs) (h'.first p h.occurs)⟩

/-- The proposer ends, and proposes what follows the longest match, as brute force finds it. -/
theorem findLongest_spec [DecidableEq α] {minNgram : Nat} (hmin : 1 ≤ minNgram) (hmax : minNgram ≤ maxNgram)
    {fuel : Nat} (hfuel : 2 * origin.length ≤ fuel) (maxModelLen k : Int) :
    ∃ proposed, findLongestMatchedNgramAndProposeTokens fuel origin minNgram maxNgram maxModelLen k =
        .ok (some proposed) ∧
      (0 < min k (maxModelLen - origin.length) → ∀ n p, LongestMatch origin minNgram maxNgram n p →
        proposed = (origin.drop (p + n)).take
          (min (min k (maxModelLen - origin.length)) (origin.length - p - n)).toNat) ∧
      ((min k (maxModelLen - origin.length) ≤ 0 ∨
        ∀ n p, minNgram ≤ n → n ≤ maxNgram → ¬ Occurs origin n p) → proposed = []) := by
  unfold findLongestMatchedNgramAndProposeTokens
  by_cases hshort : origin.length < minNgram
  · refine ⟨[], if_pos hshort, fun _ n p h => ?_, fun _ => rfl⟩
    have := h.range.1
    have := h.occurs.1
    omega
  · by_cases hk : min k (maxModelLen - origin.length) ≤ 0
    · refine ⟨[], ?_, fun h => absurd h (by omega), fun _ => rfl⟩
      simp only [if_neg hshort, if_pos hk]
    · have hlen : 0 < origin.reverse.length := by
        rw [List.length_reverse]
        omega
      obtain ⟨s, hsearch, hinv, hend⟩ := @search_ok _ _ _ _ _ fuel (inv_start (by omega : 0 < maxNgram) hlen) (by
        show 2 * (origin.reverse.length - 1) + 0 < fuel
        rw [List.length_reverse] at hlen ⊢
        omega)
      have hfound := hinv.found
      rw [hend, List.length_reverse] at hfound
      by_cases hnone : s.longestNgram < minNgram
      · refine ⟨[], ?_, fun _ n p h => ?_, fun _ => rfl⟩
        · simp only [if_neg hshort, if_neg hk, hsearch, Result.ok_bind, if_pos hnone]
          rfl
        · have := (hfound.best_of_occurs (hmin.trans h.range.1) h.range.2 h.occurs).1
          have := h.range.1
          omega
      · have hmatch := hfound.longestMatch hmin (by omega)
        refine ⟨(origin.drop (origin.length - 1 - s.position + s.longestNgram)).take
          (min (min k (maxModelLen - origin.length)) ((origin.length : Int) -
            ((origin.length - 1 - s.position + s.longestNgram : Nat) : Int))).toNat,
          ?_, fun _ n p h => ?_, fun h => ?_⟩
        · simp only [if_neg hshort, if_neg hk, hsearch, Result.ok_bind, if_neg hnone]
          rfl
        · obtain ⟨rfl, rfl⟩ := h.unique hmatch
          have hlt := h.occurs.1
          congr 2
          congr 1
          omega
        · rcases h with h | h
          · exact absurd h hk
          · exact absurd hmatch.occurs (h _ _ hmatch.range.1 hmatch.range.2)

theorem findLongest_repeat : ∃ proposed,
    findLongestMatchedNgramAndProposeTokens 14 [1, 2, 3, 4, 1, 2, 3] 1 3 20 2 = .ok (some proposed) ∧
      (LongestMatch [1, 2, 3, 4, 1, 2, 3] 1 3 3 0 → proposed = [4, 1]) := by
  obtain ⟨proposed, hok, hmatch, -⟩ :=
    @findLongest_spec Nat 3 [1, 2, 3, 4, 1, 2, 3] _ 1 le_rfl (by decide) 14 le_rfl 20 2
  exact ⟨proposed, hok, hmatch (by decide) 3 0⟩

end Vllm.NgramProposer
