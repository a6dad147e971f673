import Mathlib.Data.List.Infix
import Mathlib.Tactic.Common

universe u

namespace Vllm.Borders

variable {α : Type u} {l : List α} {v w i : Nat}

def Border (l : List α) (v i : Nat) : Prop := v ≤ i ∧ l.take v <:+ l.take i

theorem border_zero (l : List α) (i : Nat) : Border l 0 i := ⟨Nat.zero_le i, List.nil_suffix⟩

theorem Border.trans (h : Border l v w) (h' : Border l w i) : Border l v i :=
  ⟨h.1.trans h'.1, h.2.trans h'.2⟩

theorem Border.of_le (hv : Border l v i) (hw : Border l w i) (hle : v ≤ w) : Border l v w := by
  refine ⟨hle, List.suffix_of_suffix_length_le hv.2 hw.2 ?_⟩
  rw [List.length_take, List.length_take]
  omega

theorem suffix_append_singleton {l l' : List α} {a b : α} : l ++ [a] <:+ l' ++ [b] ↔ l <:+ l' ∧ a = b := by
  rw [← List.reverse_prefix, List.reverse_append, List.reverse_append]
  simp only [List.reverse_singleton, List.singleton_append, List.cons_prefix_cons, List.reverse_prefix]
  exact And.comm

theorem border_succ (hi : i < l.length) : Border l (v + 1) (i + 1) ↔ Border l v i ∧ l[v]? = l[i]? := by
  by_cases hv : v ≤ i
  · have hv' : v < l.length := by omega
    rw [Border, Border, List.take_succ_eq_append_getElem hv', List.take_succ_eq_append_getElem hi,
      List.getElem?_eq_getElem hv', List.getElem?_eq_getElem hi, suffix_append_singleton, Option.some_inj,
      Nat.add_le_add_iff_right, and_assoc]
  · constructor
    · intro h
      exact absurd h.1 (by omega)
    · intro h
      exact absurd h.1.1 hv

structure LongestBorder (l : List α) (v i : Nat) : Prop where
  lt : v < i
  border : Border l v i
  le : ∀ w < i, Border l w i → w ≤ v

theorem LongestBorder.le_of_lt (h : LongestBorder l v w) (hw : Border l w i) {u : Nat} (hu : Border l u i)
    (hlt : u < w) : u ≤ v := h.le u hlt (hu.of_le hw hlt.le)

end Vllm.Borders
