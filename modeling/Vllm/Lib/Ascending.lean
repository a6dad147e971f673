import Mathlib.Data.List.GetD
import Mathlib.Data.List.Sort
import Mathlib.Tactic.Common

namespace Vllm.Ascending

variable {l : List Nat} {i j d : Nat}

def HasRun (l : List Nat) (d : Nat) : Prop := ∃ b ∈ l, ∀ k < d + 1, b + k ∈ l

instance (l : List Nat) (d : Nat) : Decidable (HasRun l d) :=
  inferInstanceAs (Decidable (∃ b ∈ l, ∀ k < d + 1, b + k ∈ l))

theorem HasRun.congr {l' : List Nat} (h : ∀ b, b ∈ l ↔ b ∈ l') : HasRun l d ↔ HasRun l' d := by
  simp only [HasRun, h]

theorem exists_getD_of_mem {b : Nat} (h : b ∈ l) : ∃ i < l.length, l.getD i 0 = b := by
  obtain ⟨i, hi, rfl⟩ := List.getElem_of_mem h
  exact ⟨i, hi, List.getD_eq_getElem l 0 hi⟩

theorem getD_mem (hi : i < l.length) : l.getD i 0 ∈ l := by
  rw [List.getD_eq_getElem l 0 hi]
  exact List.getElem_mem hi

theorem getD_add_le (hl : l.Pairwise (· < ·)) (hij : i ≤ j) (hj : j < l.length) :
    l.getD i 0 + (j - i) ≤ l.getD j 0 := by
  induction j, hij using Nat.le_induction with
  | base => omega
  | succ j hij ih =>
    have hprev := ih (Nat.lt_of_succ_lt hj)
    have hnext := List.pairwise_iff_getElem.mp hl j (j + 1) (Nat.lt_of_succ_lt hj) hj (Nat.lt_succ_self j)
    rw [← List.getD_eq_getElem l 0, ← List.getD_eq_getElem l 0] at hnext
    omega

theorem hasRun_iff (hl : l.Pairwise (· < ·)) :
    HasRun l d ↔ ∃ i, i + d < l.length ∧ l.getD (i + d) 0 = l.getD i 0 + d := by
  constructor
  · rintro ⟨b, hb, hrun⟩
    obtain ⟨i, hi, rfl⟩ := exists_getD_of_mem hb
    have hplaces : ∀ k ≤ d, i + k < l.length ∧ l.getD (i + k) 0 = l.getD i 0 + k := by
      intro k hk
      induction k with
      | zero => exact ⟨hi, rfl⟩
      | succ k ih =>
        obtain ⟨hlt, hval⟩ := ih (by omega)
        obtain ⟨j, hj, hjval⟩ := exists_getD_of_mem (hrun (k + 1) (by omega))
        have hafter : i + k < j := by
          by_contra hle
          have := getD_add_le hl (Nat.le_of_not_lt hle) hlt
          omega
        have hstep := getD_add_le hl (Nat.le_succ (i + k)) (Nat.lt_of_le_of_lt hafter hj)
        have hrest := getD_add_le hl hafter hj
        rw [Nat.succ_eq_add_one, Nat.add_assoc] at hstep hrest
        exact ⟨by omega, by omega⟩
    exact ⟨i, hplaces d le_rfl⟩
  · rintro ⟨i, hlt, hval⟩
    refine ⟨l.getD i 0, getD_mem (by omega), fun k hk => ?_⟩
    have hbefore := getD_add_le hl (Nat.le_add_right i k) (by omega)
    have hafter := getD_add_le hl (show i + k ≤ i + d by omega) hlt
    rw [show l.getD i 0 + k = l.getD (i + k) 0 by omega]
    exact getD_mem (by omega)

theorem pairwise_insertionSort_lt (hl : l.Nodup) : (l.insertionSort (· ≤ ·)).Pairwise (· < ·) := by
  have hsorted := List.pairwise_insertionSort (· ≤ ·) l
  have hnodup : (l.insertionSort (· ≤ ·)).Nodup := (List.perm_insertionSort (· ≤ ·) l).nodup_iff.mpr hl
  exact (hsorted.and hnodup).imp fun ⟨hle, hne⟩ => Nat.lt_of_le_of_ne hle hne

end Vllm.Ascending
