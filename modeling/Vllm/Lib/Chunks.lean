import Mathlib.Data.List.Basic
import Mathlib.Data.Nat.Basic
import Mathlib.Order.MinMax
import Mathlib.Order.Monotone.Basic
import Mathlib.Tactic.Common

namespace Vllm.Chunks

def base (c start j : Nat) : Nat := (start / c + j) * c

def bound (c start stop j : Nat) : Nat := min stop (max start (base c start j))

def count (c start stop : Nat) : Nat := (stop - 1) / c - start / c + 1

theorem flatMap_range' {f : Nat → Nat} (hf : Monotone f) (n : Nat) :
    (List.range n).flatMap (fun j => List.range' (f j) (f (j + 1) - f j)) =
      List.range' (f 0) (f n - f 0) := by
  induction n with
  | zero => simp
  | succ n ih =>
    have hstart := hf (Nat.zero_le n)
    have hstep : f n ≤ f (n + 1) := hf (Nat.le_succ n)
    have hlen : f (n + 1) - f 0 = (f n - f 0) + (f (n + 1) - f n) := by omega
    rw [List.range_succ, List.flatMap_append, ih, List.flatMap_singleton, hlen,
      ← List.range'_append_1]
    congr 2
    omega

variable {c start stop j k p : Nat}

theorem base_succ (c start j : Nat) : base c start (j + 1) = base c start j + c := by
  rw [base, base, ← Nat.add_assoc, Nat.add_mul _ 1, Nat.one_mul]

theorem base_mono : Monotone (base c start) :=
  monotone_nat_of_le_succ fun j => base_succ c start j ▸ Nat.le_add_right _ _

theorem bound_mono : Monotone (bound c start stop) :=
  fun _ _ h => min_le_min_left _ (max_le_max_left _ (base_mono h))

theorem base_zero_le : base c start 0 ≤ start := by
  rw [base, Nat.add_zero]
  exact Nat.div_mul_le_self start c

theorem lt_base_one (hc : 0 < c) : start < base c start 1 := by
  rw [base_succ, base, Nat.add_zero]
  exact Nat.lt_div_mul_add hc

theorem bound_zero (h : start < stop) : bound c start stop 0 = start := by
  rw [bound, max_eq_left base_zero_le, min_eq_right (Nat.le_of_lt h)]

theorem bound_succ (hc : 0 < c) (j : Nat) :
    bound c start stop (j + 1) = min stop (base c start (j + 1)) := by
  have hlt : start < base c start (j + 1) :=
    Nat.lt_of_lt_of_le (lt_base_one hc) (base_mono (Nat.succ_le_succ (Nat.zero_le j)))
  rw [bound, max_eq_right (Nat.le_of_lt hlt)]

theorem base_lt (h : start < stop) (hj : j < count c start stop) :
    base c start j < stop := by
  have hle : start / c ≤ (stop - 1) / c := Nat.div_le_div_right (by omega)
  have hmul : base c start j ≤ (stop - 1) / c * c :=
    Nat.mul_le_mul_right c (by rw [count] at hj; omega)
  have hstop := Nat.div_mul_le_self (stop - 1) c
  omega

theorem le_base_count (hc : 0 < c) (h : start < stop) : stop ≤ base c start (count c start stop) := by
  have hle : start / c ≤ (stop - 1) / c := Nat.div_le_div_right (by omega)
  have hbase : base c start (count c start stop) = ((stop - 1) / c + 1) * c := by
    rw [base, count]
    congr 1
    omega
  have hlt : stop - 1 < (stop - 1) / c * c + c := Nat.lt_div_mul_add hc
  rw [hbase, Nat.add_mul, Nat.one_mul]
  omega

theorem bound_count (hc : 0 < c) (h : start < stop) :
    bound c start stop (count c start stop) = stop := by
  rw [bound, min_eq_left]
  exact Nat.le_trans (le_base_count hc h) (Nat.le_max_right _ _)

theorem flatMap_pieces (hc : 0 < c) (h : start < stop) :
    (List.range (count c start stop)).flatMap (fun j => List.range' (bound c start stop j)
      (bound c start stop (j + 1) - bound c start stop j)) = List.range' start (stop - start) := by
  rw [flatMap_range' bound_mono, bound_zero h, bound_count hc h]

theorem div_eq_iff_base (hc : 0 < c) :
    k / c = start / c + j ↔ base c start j ≤ k ∧ k < base c start (j + 1) := by
  rw [base_succ, base, Nat.div_eq_iff hc]
  omega

theorem div_of_mem_piece (hc : 0 < c) (h : bound c start stop j ≤ k)
    (h' : k < bound c start stop (j + 1)) : k / c = start / c + j := by
  rw [bound_succ hc] at h'
  rw [bound] at h
  exact (div_eq_iff_base hc).2 ⟨by omega, by omega⟩

theorem filter_range_div (hc : 0 < c) (hp : p / c = start / c + j) :
    (List.range (p + 1)).filter (fun k => k / c = p / c) =
      List.range' (base c start j) (p + 1 - base c start j) := by
  obtain ⟨hlo, hhi⟩ := (div_eq_iff_base hc).1 hp
  have hsplit : List.range (p + 1) =
      List.range' 0 (base c start j) ++ List.range' (base c start j) (p + 1 - base c start j) := by
    have happend : List.range' 0 (base c start j) ++
        List.range' (0 + base c start j) (p + 1 - base c start j) = _ := List.range'_append_1
    rw [Nat.zero_add] at happend
    rw [happend, List.range_eq_range']
    congr 1
    omega
  rw [hsplit, List.filter_append, List.filter_eq_nil_iff.2, List.nil_append,
    List.filter_eq_self.2]
  · intro k hk
    rw [List.mem_range'_1] at hk
    rw [decide_eq_true_iff, hp, div_eq_iff_base hc]
    omega
  · intro k hk
    rw [List.mem_range'_1] at hk
    rw [decide_eq_true_iff, hp, div_eq_iff_base hc]
    omega

end Vllm.Chunks
