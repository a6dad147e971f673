import Mathlib.Order.Bounds.Basic
import Vllm.DetokenizerStream

namespace Vllm.IncrementalDetokenizer

variable {D : Type} (decodeNext : D → List Int → Int → Text × D)

def feed (d : IncrementalDetokenizer D) : List (List Int) → IncrementalDetokenizer D × Option Text
  | [] => (d, none)
  | group :: groups =>
    match d.update decodeNext group false with
    | (d, some stopStr) => (d, some stopStr)
    | (d, none) => feed d groups

def ends : Nat → List (List Int) → List Nat
  | _, [] => []
  | n, group :: groups => (n + group.length) :: ends (n + group.length) groups

section State

variable (params : StopParams) (promptIds : List Int) (decoder : D)

def Contains (tokens : List Int) (stopStr : Text) : Prop :=
  ∃ i, (textOf decodeNext promptIds decoder (tokens.take params.minTokens)).length < i + stopStr.length ∧
    stopStr <+: (textOf decodeNext promptIds decoder tokens).drop i

def outcome (offset : Nat) (all : List Int) (found : Option Nat) : IncrementalDetokenizer D × Option Text :=
  match found with
  | none => (detokenizerAt decodeNext params promptIds decoder offset all [], none)
  | some e => (detokenizerAt decodeNext params promptIds decoder offset (all.take e) [],
      (stopFound decodeNext params promptIds decoder (all.take e)).map Prod.fst)

variable {decodeNext params promptIds decoder}

theorem feed_at {tokens : List Int} (hnone : stopFound decodeNext params promptIds decoder tokens = none)
    (offset : Nat) (groups : List (List Int)) :
    feed decodeNext (detokenizerAt decodeNext params promptIds decoder offset tokens []) groups =
      outcome decodeNext params promptIds decoder offset (tokens ++ groups.flatten)
        ((ends tokens.length groups).find? fun e =>
          (stopFound decodeNext params promptIds decoder ((tokens ++ groups.flatten).take e)).isSome) := by
  induction groups generalizing tokens with
  | nil => simp [feed, ends, outcome]
  | cons group groups ih =>
    have htake : (tokens ++ (group :: groups).flatten).take (tokens.length + group.length) = tokens ++ group := by
      rw [List.flatten_cons, ← List.append_assoc, ← List.length_append, List.take_left]
    have hupdate := update_at hnone offset group false
    rw [Bool.false_and] at hupdate
    change _ = (detokenizerAt decodeNext params promptIds decoder offset (tokens ++ group) [],
      (stopFound decodeNext params promptIds decoder (tokens ++ group)).map Prod.fst) at hupdate
    rw [feed, hupdate, ends, List.find?_cons, htake]
    cases hfound : stopFound decodeNext params promptIds decoder (tokens ++ group) with
    | none =>
      have hrest := ih hfound
      rw [List.length_append, List.append_assoc] at hrest
      exact hrest
    | some found =>
      show _ = outcome decodeNext params promptIds decoder offset _ (some (tokens.length + group.length))
      rw [outcome, htake, hfound]
      rfl

/-! What is found stays found, at the same place. -/

def completes (decodeNext : D → List Int → Int → Text × D) (params : StopParams) (promptIds : List Int)
    (decoder : D) (tokens : List Int) (stopStr : Text) : Option Nat :=
  findAfter (textOf decodeNext promptIds decoder tokens)
    (textOf decodeNext promptIds decoder (tokens.take params.minTokens)).length stopStr

theorem contains_iff {tokens : List Int} {stopStr : Text} (hne : stopStr ≠ []) :
    Contains decodeNext params promptIds decoder tokens stopStr ↔
      completes decodeNext params promptIds decoder tokens stopStr ≠ none := by
  rw [Ne, completes, findAfter_eq_none]
  constructor
  · intro ⟨i, hlt, hmatch⟩ hall
    have hlen := hmatch.length_le
    have hpos := List.length_pos_iff.mpr hne
    rw [List.length_drop] at hlen
    have := hall i hmatch (by omega)
    omega
  · intro hsome
    by_contra hnot
    refine hsome fun i hmatch _ => ?_
    by_contra hlt
    exact hnot ⟨i, by omega, hmatch⟩

theorem completes_append {tokens new : List Int} {stopStr : Text} {i : Nat}
    (h : completes decodeNext params promptIds decoder tokens stopStr = some i) :
    completes decodeNext params promptIds decoder (tokens ++ new) stopStr = some i := by
  -- the tokens are more than the first `min_tokens`
  have hmin : params.minTokens ≤ tokens.length := by
    by_contra hlt
    rw [completes, List.take_of_length_le (by omega), findAfter_length] at h
    cases h
  obtain ⟨hlt, hmatch, hle⟩ := findAfter_eq_some h
  obtain ⟨more, hmore⟩ := @textOf_begins D decodeNext promptIds decoder tokens new
  rw [completes, findAfter, List.find?_range_eq_some] at h ⊢
  obtain ⟨-, -, hfirst⟩ := h
  rw [List.take_append_of_le_length hmin, ← hmore]
  refine ⟨?_, ?_, fun j hj => ?_⟩
  · simp only [decide_eq_true_eq, List.isPrefixOf_iff_prefix]
    refine ⟨hlt, hmatch.trans ?_⟩
    rw [List.drop_append_of_le_length (by omega)]
    exact List.prefix_append _ _
  · rw [List.mem_range, List.length_append]
    omega
  · have hnot := hfirst j hj
    simp only [Bool.not_eq_true', decide_eq_false_iff_not, List.isPrefixOf_iff_prefix, not_and] at hnot ⊢
    intro hltj hmatchj
    refine hnot hltj ?_
    rw [List.drop_append_of_le_length (by omega)] at hmatchj
    exact List.prefix_of_prefix_length_le hmatchj (List.prefix_append _ _) (by rw [List.length_drop]; omega)

theorem stopFound_isSome_iff {tokens : List Int} :
    (stopFound decodeNext params promptIds decoder tokens).isSome ↔
      ∃ stopStr ∈ params.stop, Contains decodeNext params promptIds decoder tokens stopStr := by
  rw [stopFound, firstAfter, List.findSome?_isSome_iff]
  constructor
  · rintro ⟨stopStr, hmem, hsome⟩
    rw [Option.isSome_map] at hsome
    exact ⟨stopStr, hmem, (contains_iff (params.nonempty _ hmem)).mpr (Option.isSome_iff_ne_none.mp hsome)⟩
  · rintro ⟨stopStr, hmem, hcontains⟩
    refine ⟨stopStr, hmem, ?_⟩
    rw [Option.isSome_map]
    exact Option.isSome_iff_ne_none.mpr ((contains_iff (params.nonempty _ hmem)).mp hcontains)

theorem stopFound_eq_some_iff {tokens : List Int} {stopStr : Text} {i : Nat} :
    stopFound decodeNext params promptIds decoder tokens = some (stopStr, i) ↔
      ∃ before after, params.stop = before ++ stopStr :: after ∧
        completes decodeNext params promptIds decoder tokens stopStr = some i ∧
        ∀ other ∈ before, ¬ Contains decodeNext params promptIds decoder tokens other := by
  rw [stopFound, firstAfter, List.findSome?_eq_some_iff]
  constructor
  · rintro ⟨before, other, after, hstop, hfound, hbefore⟩
    obtain ⟨j, hj, heq⟩ := Option.map_eq_some_iff.mp hfound
    cases heq
    refine ⟨before, after, hstop, hj, fun other hmem => ?_⟩
    have hne : other ≠ [] := params.nonempty other (hstop ▸ List.mem_append_left _ hmem)
    rw [contains_iff hne, Ne, not_not]
    exact Option.map_eq_none_iff.mp (hbefore other hmem)
  · rintro ⟨before, after, hstop, hfound, hbefore⟩
    refine ⟨before, stopStr, after, hstop, Option.map_eq_some_iff.mpr ⟨i, hfound, rfl⟩, fun other hmem => ?_⟩
    have hne : other ≠ [] := params.nonempty other (hstop ▸ List.mem_append_left _ hmem)
    have hnot := hbefore other hmem
    rw [contains_iff hne, Ne, not_not] at hnot
    exact Option.map_eq_none_iff.mpr hnot

theorem contains_take {all : List Int} {n e : Nat} (hle : n ≤ e) {stopStr : Text} (hne : stopStr ≠ [])
    (h : Contains decodeNext params promptIds decoder (all.take n) stopStr) :
    Contains decodeNext params promptIds decoder (all.take e) stopStr := by
  obtain ⟨more, hmore⟩ := List.take_prefix_take_left hle (l := all)
  rw [contains_iff hne] at h ⊢
  obtain ⟨i, hi⟩ := Option.ne_none_iff_exists'.mp h
  rw [← hmore, completes_append hi]
  exact Option.some_ne_none i

theorem cutText_take {all : List Int} {n e : Nat} (hle : n ≤ e) {stopStr : Text} {i : Nat}
    (h : completes decodeNext params promptIds decoder (all.take n) stopStr = some i) :
    cutText params.includeStopStrInOutput (textOf decodeNext promptIds decoder (all.take e)) (some (stopStr, i)) =
      cutText params.includeStopStrInOutput (textOf decodeNext promptIds decoder (all.take n))
        (some (stopStr, i)) := by
  obtain ⟨more, hmore⟩ := List.take_prefix_take_left hle (l := all)
  obtain ⟨text, htext⟩ := @textOf_begins D decodeNext promptIds decoder (all.take n) more
  obtain ⟨-, -, hend⟩ := findAfter_eq_some h
  have hcut : cutLength params.includeStopStrInOutput (stopStr, i) ≤
      (textOf decodeNext promptIds decoder (all.take n)).length := by
    unfold cutLength
    split
    · exact hend
    · exact Nat.le_of_add_right_le hend
  rw [cutText, cutText, ← hmore, ← htext, List.take_append_of_le_length hcut]

end State

section Ends

theorem le_of_mem_ends {n e : Nat} {groups : List (List Int)} (h : e ∈ ends n groups) : n ≤ e := by
  induction groups generalizing n with
  | nil => cases h
  | cons group groups ih =>
    rcases List.mem_cons.mp h with rfl | h
    · exact Nat.le_add_right _ _
    · exact (Nat.le_add_right _ _).trans (ih h)

theorem find?_ends {p : Nat → Bool} {n e : Nat} {groups : List (List Int)}
    (h : (ends n groups).find? p = some e) : p e = true ∧ e ∈ ends n groups ∧ ∀ e' ∈ ends n groups, p e' → e ≤ e' := by
  induction groups generalizing n with
  | nil => cases h
  | cons group groups ih =>
    rw [ends, List.find?_cons] at h
    cases hp : p (n + group.length) with
    | true =>
      rw [hp] at h
      cases h
      refine ⟨hp, List.mem_cons_self, fun e' he' _ => ?_⟩
      rcases List.mem_cons.mp he' with rfl | he'
      · exact le_rfl
      · exact le_of_mem_ends he'
    | false =>
      rw [hp] at h
      obtain ⟨hpe, hmem, hleast⟩ := ih h
      refine ⟨hpe, List.mem_cons_of_mem _ hmem, fun e' he' hpe' => ?_⟩
      rcases List.mem_cons.mp he' with rfl | he'
      · rw [hp] at hpe'
        cases hpe'
      · exact hleast e' he' hpe'

theorem length_mem_ends {n : Nat} {groups : List (List Int)} (h : groups ≠ []) :
    n + groups.flatten.length ∈ ends n groups := by
  induction groups generalizing n with
  | nil => exact absurd rfl h
  | cons group groups ih =>
    cases groups with
    | nil => simp [ends]
    | cons next groups =>
      refine List.mem_cons_of_mem _ ?_
      have hrest := ih (List.cons_ne_nil _ _) (n := n + group.length)
      rwa [Nat.add_assoc, ← List.length_append, ← List.flatten_cons] at hrest

theorem ends_singles (n : Nat) (tokens : List Int) :
    ends n (tokens.map fun token => [token]) = List.range' (n + 1) tokens.length := by
  induction tokens generalizing n with
  | nil => rfl
  | cons token tokens ih =>
    rw [List.map_cons, ends, ih]
    rfl

theorem flatten_singles (tokens : List Int) : (tokens.map fun token => [token]).flatten = tokens := by
  induction tokens with
  | nil => rfl
  | cons token tokens ih =>
    rw [List.map_cons, List.flatten_cons, ih]
    rfl

theorem find?_range'_none {p : Nat → Bool} {len : Nat} (hzero : p 0 = false) (hend : ∀ n, len ≤ n → p n = p len)
    (h : (List.range' (0 + 1) len).find? p = none) (n : Nat) : p n = false := by
  have hin : ∀ k ≤ len, p k = false := by
    intro k hk
    rcases Nat.eq_zero_or_pos k with rfl | hpos
    · exact hzero
    · exact Bool.eq_false_iff.mpr (List.find?_eq_none.mp h k (List.mem_range'_1.mpr (by omega)))
  rcases Nat.le_total n len with hle | hle
  · exact hin n hle
  · rw [hend n hle]
    exact hin len le_rfl

theorem find?_range'_least {p : Nat → Bool} {len n : Nat} (hzero : p 0 = false)
    (h : (List.range' (0 + 1) len).find? p = some n) :
    p n = true ∧ 0 < n ∧ n ≤ len ∧ ∀ n', p n' = true → n ≤ n' := by
  obtain ⟨hn, hrange, hbefore⟩ := List.find?_range'_eq_some.mp h
  have hrange := List.mem_range'_1.mp hrange
  refine ⟨hn, by omega, by omega, fun n' hn' => ?_⟩
  by_contra hlt
  rcases Nat.eq_zero_or_pos n' with rfl | hpos
  · rw [hzero] at hn'
    cases hn'
  · have hnot := hbefore n' (by omega) (by omega)
    rw [hn'] at hnot
    cases hnot

end Ends

section Groups

variable (params : StopParams) (promptIds : List Int) (decoder : D)

/-- When the text first contains a stop string, after `n` tokens, the group of token `n` does not
go on to one that is listed before those. -/
def InListOrder (groups : List (List Int)) : Prop :=
  ∀ n e, IsLeast {n | ∃ stopStr ∈ params.stop,
      Contains decodeNext params promptIds decoder (groups.flatten.take n) stopStr} n →
    IsLeast {e | e ∈ ends 0 groups ∧ n ≤ e} e →
    ∀ before stopStr after, params.stop = before ++ stopStr :: after →
      Contains decodeNext params promptIds decoder (groups.flatten.take n) stopStr →
      (∀ other ∈ before, ¬ Contains decodeNext params promptIds decoder (groups.flatten.take n) other) →
      ∀ other ∈ before, ¬ Contains decodeNext params promptIds decoder (groups.flatten.take e) other

variable {decodeNext params promptIds decoder}

theorem before_eq {α : Type} {before before' after after' : List α} {x : α} (hx : x ∉ before) (hx' : x ∉ before')
    (h : before ++ x :: after = before' ++ x :: after') : before = before' := by
  rcases List.append_eq_append_iff.mp h with ⟨c, hc, hrest⟩ | ⟨c, hc, hrest⟩
  · cases c with
    | nil => rw [hc, List.append_nil]
    | cons y c =>
      rw [List.cons_append, List.cons_eq_cons] at hrest
      exact absurd (hc ▸ List.mem_append_right _ (hrest.1 ▸ List.mem_cons_self)) hx'
  · cases c with
    | nil => rw [hc, List.append_nil]
    | cons y c =>
      rw [List.cons_append, List.cons_eq_cons] at hrest
      exact absurd (hc ▸ List.mem_append_right _ (hrest.1 ▸ List.mem_cons_self)) hx

theorem stopFound_take {all : List Int} {n e : Nat} (hle : n ≤ e)
    (h : (stopFound decodeNext params promptIds decoder (all.take n)).isSome) :
    (stopFound decodeNext params promptIds decoder (all.take e)).isSome := by
  obtain ⟨stopStr, hmem, hcontains⟩ := stopFound_isSome_iff.mp h
  exact stopFound_isSome_iff.mpr ⟨stopStr, hmem, contains_take hle (params.nonempty _ hmem) hcontains⟩

theorem stopFound_take_eq_iff {all : List Int} {n e : Nat} (hle : n ≤ e) {stopStr : Text} {i : Nat}
    (hn : stopFound decodeNext params promptIds decoder (all.take n) = some (stopStr, i)) :
    (stopFound decodeNext params promptIds decoder (all.take e)).map Prod.fst = some stopStr ↔
      ∀ before stopStr after, params.stop = before ++ stopStr :: after →
        Contains decodeNext params promptIds decoder (all.take n) stopStr →
        (∀ other ∈ before, ¬ Contains decodeNext params promptIds decoder (all.take n) other) →
        ∀ other ∈ before, ¬ Contains decodeNext params promptIds decoder (all.take e) other := by
  obtain ⟨first, rest, hstop, hfound, hfirst⟩ := stopFound_eq_some_iff.mp hn
  have hne : ∀ {before s after}, params.stop = before ++ s :: after → s ≠ [] := fun h =>
    params.nonempty _ (h ▸ List.mem_append_right _ List.mem_cons_self)
  have hcontains : Contains decodeNext params promptIds decoder (all.take n) stopStr :=
    (contains_iff (hne hstop)).mpr (by rw [hfound]; exact Option.some_ne_none i)
  constructor
  · intro he before other after hother hn' hbefore
    obtain ⟨⟨found, j⟩, hfound', rfl⟩ := Option.map_eq_some_iff.mp he
    obtain ⟨first', rest', hstop', hfoundAt, hfirst'⟩ := stopFound_eq_some_iff.mp hfound'
    -- the string of the single tokens is the one of the split
    obtain ⟨k, hk⟩ := Option.ne_none_iff_exists'.mp ((contains_iff (hne hother)).mp hn')
    have hsame := stopFound_eq_some_iff.mpr ⟨before, after, hother, hk, hbefore⟩
    rw [hn] at hsame
    cases hsame
    have hin : found ∉ before := fun h => hbefore found h hn'
    have hin' : found ∉ first' := fun h => hfirst' found h (contains_take hle (hne hother) hn')
    rw [before_eq hin hin' (hother.symm.trans hstop')]
    exact hfirst'
  · intro horder
    obtain ⟨more, hmore⟩ := List.take_prefix_take_left hle (l := all)
    have he := @completes_append D decodeNext params promptIds decoder _ more _ _ hfound
    rw [hmore] at he
    rw [stopFound_eq_some_iff.mpr ⟨first, rest, hstop, he, horder first stopStr rest hstop hcontains hfirst⟩]
    rfl

theorem cutText_take_eq {all : List Int} {n e : Nat} (hle : n ≤ e) {stopStr : Text} {i : Nat}
    (hn : stopFound decodeNext params promptIds decoder (all.take n) = some (stopStr, i))
    (hsame : (stopFound decodeNext params promptIds decoder (all.take e)).map Prod.fst = some stopStr) :
    cutText params.includeStopStrInOutput (textOf decodeNext promptIds decoder (all.take e))
        (stopFound decodeNext params promptIds decoder (all.take e)) =
      cutText params.includeStopStrInOutput (textOf decodeNext promptIds decoder (all.take n))
        (some (stopStr, i)) := by
  obtain ⟨-, -, -, hcompletes, -⟩ := stopFound_eq_some_iff.mp hn
  obtain ⟨⟨found, j⟩, hfound, rfl⟩ := Option.map_eq_some_iff.mp hsame
  obtain ⟨-, -, -, hcompletes', -⟩ := stopFound_eq_some_iff.mp hfound
  obtain ⟨more, hmore⟩ := List.take_prefix_take_left hle (l := all)
  have hplace := @completes_append D decodeNext params promptIds decoder _ more _ _ hcompletes
  rw [hmore, hcompletes'] at hplace
  cases hplace
  rw [hfound, cutText_take hle hcompletes]

/-- Groups return the stop string and leave the text that single tokens do exactly if the strings that a
group contains come in the order of the list. -/
theorem feed_groups_iff (params : StopParams) (promptIds : List Int) (decoder : D) (groups : List (List Int)) :
    ((feed decodeNext (Stream.start params promptIds decoder).detokenizer groups).2 =
        (feed decodeNext (Stream.start params promptIds decoder).detokenizer
          (groups.flatten.map fun token => [token])).2 ∧
      (feed decodeNext (Stream.start params promptIds decoder).detokenizer groups).1.outputText =
        (feed decodeNext (Stream.start params promptIds decoder).detokenizer
          (groups.flatten.map fun token => [token])).1.outputText) ↔
      InListOrder decodeNext params promptIds decoder groups := by
  have hgroups := feed_at (@Stream.stopFound_nil D decodeNext params promptIds decoder) 0 groups
  have hsingles := feed_at (@Stream.stopFound_nil D decodeNext params promptIds decoder) 0
    (groups.flatten.map fun token => [token])
  rw [← Stream.start_eq, List.nil_append, List.length_nil] at hgroups hsingles
  rw [flatten_singles, ends_singles] at hsingles
  rw [hgroups, hsingles]
  generalize hall : groups.flatten = all
  have hzero : (stopFound decodeNext params promptIds decoder (all.take 0)).isSome = false := by
    rw [List.take_zero, Stream.stopFound_nil]
    rfl
  have hbehind : ∀ n, all.length ≤ n → (stopFound decodeNext params promptIds decoder (all.take n)).isSome =
      (stopFound decodeNext params promptIds decoder (all.take all.length)).isSome := by
    intro n hn
    rw [List.take_of_length_le hn, List.take_length]
  have hcontained : ∀ n, (n ∈ {n | ∃ stopStr ∈ params.stop,
      Contains decodeNext params promptIds decoder (all.take n) stopStr}) ↔
      (stopFound decodeNext params promptIds decoder (all.take n)).isSome :=
    fun n => stopFound_isSome_iff.symm
  cases hfirst : (List.range' (0 + 1) all.length).find? fun e =>
      (stopFound decodeNext params promptIds decoder (all.take e)).isSome with
  | none =>
    have hnever := find?_range'_none hzero hbehind hfirst
    rw [List.find?_eq_none.mpr fun e _ => Bool.eq_false_iff.mp (hnever e)]
    refine ⟨fun _ n e hn => ?_, fun _ => ⟨rfl, rfl⟩⟩
    rw [hall] at hn
    exact absurd ((hcontained n).mp hn.1) (Bool.eq_false_iff.mp (hnever n))
  | some n =>
    obtain ⟨hn, hpos, hle, hleast⟩ := find?_range'_least hzero hfirst
    have hnil : groups ≠ [] := by
      rintro rfl
      rw [← hall] at hle
      change n ≤ 0 at hle
      omega
    have hlast := length_mem_ends (n := 0) hnil
    rw [hall, Nat.zero_add] at hlast
    cases hend : (ends 0 groups).find? fun e =>
        (stopFound decodeNext params promptIds decoder (all.take e)).isSome with
    | none => exact absurd (stopFound_take hle hn) (List.find?_eq_none.mp hend _ hlast)
    | some e =>
      obtain ⟨he, hmem, hfirstEnd⟩ := find?_ends hend
      have hne : n ≤ e := hleast e he
      obtain ⟨⟨stopStr, i⟩, hfound⟩ := Option.isSome_iff_exists.mp hn
      have hleastN : IsLeast {n | ∃ stopStr ∈ params.stop,
          Contains decodeNext params promptIds decoder (all.take n) stopStr} n :=
        ⟨(hcontained n).mpr hn, fun n' hn' => hleast n' ((hcontained n').mp hn')⟩
      have hleastE : IsLeast {e | e ∈ ends 0 groups ∧ n ≤ e} e :=
        ⟨⟨hmem, hne⟩, fun e' he' => hfirstEnd e' he'.1 (stopFound_take he'.2 hn)⟩
      have hiff := stopFound_take_eq_iff hne hfound
      show ((stopFound decodeNext params promptIds decoder (all.take e)).map Prod.fst =
        (stopFound decodeNext params promptIds decoder (all.take n)).map Prod.fst ∧
        cutText params.includeStopStrInOutput (textOf decodeNext promptIds decoder (all.take e))
          (stopFound decodeNext params promptIds decoder (all.take e)) =
        cutText params.includeStopStrInOutput (textOf decodeNext promptIds decoder (all.take n))
          (stopFound decodeNext params promptIds decoder (all.take n))) ↔ _
      rw [hfound]
      constructor
      · intro ⟨hsame, _⟩ n' e' hn' he'
        rw [hall] at hn' ⊢
        obtain rfl : n' = n := hn'.unique hleastN
        obtain rfl : e' = e := he'.unique hleastE
        exact hiff.mp hsame
      · intro horder
        have hsame := hiff.mpr fun before s after => by
          have := horder n e (hall.symm ▸ hleastN) hleastE before s after
          rwa [hall] at this
        exact ⟨hsame, cutText_take_eq hne hfound hsame⟩

def lettersParams : StopParams where
  stop := [['b'], ['a']]
  minTokens := 0
  includeStopStrInOutput := false
  nonempty := by decide

def letter (_ : Unit) (_ : List Int) (newTokenId : Int) : Text × Unit := (if newTokenId = 0 then ['a'] else ['b'], ())

/-- As one group the tokens stop at the second letter, and the text keeps the first stop string; one
at a time they stop at the first. -/
theorem feed_letters :
    (feed letter (Stream.start lettersParams [] ()).detokenizer [[0, 1]]).2 = some ['b'] ∧
    (feed letter (Stream.start lettersParams [] ()).detokenizer [[0, 1]]).1.outputText = ['a'] ∧
    (feed letter (Stream.start lettersParams [] ()).detokenizer [[0], [1]]).2 = some ['a'] ∧
    (feed letter (Stream.start lettersParams [] ()).detokenizer [[0], [1]]).1.outputText = [] := by
  decide

end Groups

end Vllm.IncrementalDetokenizer
