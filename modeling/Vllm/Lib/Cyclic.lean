import Mathlib.Data.List.Basic
import Mathlib.Data.List.Nodup
import Mathlib.Tactic.Linarith

namespace Vllm

namespace Cyclic

def interval (M s k : Nat) : List Nat := (List.range k).map fun i => (s + i) % M

variable {M s k n : Nat}

theorem interval_succ : interval M s (k + 1) = interval M s k ++ [(s + k) % M] := by
  simp [interval, List.range_succ]

theorem interval_cons (hs : s < M) :
    interval M s (k + 1) = s :: interval M ((s + 1) % M) k := by
  rw [interval, List.range_succ_eq_map, List.map_cons, List.map_map, Nat.add_zero,
    Nat.mod_eq_of_lt hs]
  refine congrArg _ (List.map_congr_left fun i _ => ?_)
  simp only [Function.comp, Nat.mod_add_mod]
  congr 1
  omega

theorem take_interval (h : k ≤ n) : (interval M s n).take k = interval M s k := by
  rw [interval, ← List.map_take, List.take_range, Nat.min_eq_left h, interval]

theorem mod_ne {a b : Nat} (hab : a < b) (hba : b < a + M) : a % M ≠ b % M := by
  intro heq
  have hsub := Nat.sub_mod_eq_zero_of_mod_eq heq.symm
  rw [Nat.mod_eq_of_lt (by omega)] at hsub
  omega

theorem nodup_interval (h : k ≤ M) : (interval M s k).Nodup := by
  refine List.Nodup.map_on (fun i hi j hj heq => ?_) List.nodup_range
  rw [List.mem_range] at hi hj
  rcases Nat.lt_trichotomy i j with hij | rfl | hij
  · exact absurd heq (mod_ne (by omega) (by omega))
  · rfl
  · exact absurd heq.symm (mod_ne (by omega) (by omega))

theorem interval_eq_range (hs : s < M) (hk : k < M) :
    interval M s k = if (s + k) % M ≥ s then List.range' s ((s + k) % M - s)
      else List.range' s (M - s) ++ List.range ((s + k) % M) := by
  by_cases h : s + k < M
  · rw [Nat.mod_eq_of_lt h, if_pos (Nat.le_add_right s k), Nat.add_sub_cancel_left,
      List.range'_eq_map_range]
    refine List.map_congr_left fun i hi => Nat.mod_eq_of_lt ?_
    have := List.mem_range.mp hi
    omega
  · have hmod : (s + k) % M = s + k - M := by
      rw [Nat.mod_eq_sub_mod (by omega), Nat.mod_eq_of_lt (by omega)]
    rw [hmod, if_neg (by omega), List.range'_eq_map_range, interval,
      show k = M - s + (s + k - M) by omega, List.range_add, List.map_append, List.map_map]
    congr 1
    · refine List.map_congr_left fun i hi => Nat.mod_eq_of_lt ?_
      have := List.mem_range.mp hi
      omega
    · rw [show s + (M - s + (s + k - M)) - M = s + k - M by omega]
      conv_rhs => rw [← List.map_id (List.range (s + k - M))]
      refine List.map_congr_left fun i hi => ?_
      have := List.mem_range.mp hi
      rw [Function.comp, show s + (M - s + i) = i + M by omega, Nat.add_mod_right,
        Nat.mod_eq_of_lt (by omega)]
      rfl

theorem disjoint_of_window {B u v a b : Int} (ha : 0 ≤ a) (hb : 0 < b) (h : u + a ≤ v)
    (h' : v + b ≤ u + B) : u % B + a ≤ v % B ∨ v % B + b ≤ u % B := by
  have hB : 0 < B := by omega
  have hu := Int.emod_add_mul_ediv u B
  have hv := Int.emod_add_mul_ediv v B
  have hu₀ := Int.emod_nonneg u hB.ne'
  have hv₀ := Int.emod_nonneg v hB.ne'
  have hu₁ := Int.emod_lt_of_pos u hB
  have hv₁ := Int.emod_lt_of_pos v hB
  have hle : u / B ≤ v / B := Int.ediv_le_ediv hB (by omega)
  have hlt : v / B ≤ u / B + 1 := by
    rw [← Int.add_mul_ediv_left u 1 hB.ne', Int.mul_one]
    exact Int.ediv_le_ediv hB (by omega)
  -- the second piece starts in the same round, or in the next one
  rcases Int.lt_or_eq_of_le hle with hround | hround
  · have hnext : v / B = u / B + 1 := by omega
    rw [hnext, Int.mul_add, Int.mul_one] at hv
    exact .inr (by omega)
  · rw [← hround] at hv
    exact .inl (by omega)

end Cyclic

end Vllm
