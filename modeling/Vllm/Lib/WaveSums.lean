import Mathlib.Algebra.BigOperators.Group.Finset.Basic
import Mathlib.Algebra.BigOperators.Intervals

namespace Vllm.WaveSums

open Finset

variable {M : Type} [AddCommMonoid M]

/-- The values of `i` in `for (i = start; i < stop; i += step)`. -/
def strided (start stop step : Nat) : List Nat := List.range' start ((stop - start + step - 1) / step) step

theorem mem_strided {start stop step i : Nat} (hstep : 0 < step) :
    i ∈ strided start stop step ↔ ∃ n, i = start + step * n ∧ i < stop := by
  rw [strided, List.mem_range']
  constructor
  · intro ⟨n, hn, hi⟩
    refine ⟨n, hi, ?_⟩
    have : (n + 1) * step ≤ stop - start + step - 1 := (Nat.le_div_iff_mul_le hstep).mp hn
    have : (n + 1) * step = step * n + step := by rw [Nat.succ_mul, Nat.mul_comm]
    omega
  · intro ⟨n, hi, hlt⟩
    refine ⟨n, (Nat.le_div_iff_mul_le hstep).mpr ?_, hi⟩
    have : (n + 1) * step = step * n + step := by rw [Nat.succ_mul, Nat.mul_comm]
    show (n + 1) * step ≤ _
    omega

theorem mem_strided_iff {tid stop threads i : Nat} (htid : tid < threads) :
    i ∈ strided tid stop threads ↔ i < stop ∧ i % threads = tid := by
  rw [mem_strided (by omega)]
  constructor
  · intro ⟨n, hi, hlt⟩
    refine ⟨hlt, ?_⟩
    rw [hi, Nat.add_mul_mod_self_left, Nat.mod_eq_of_lt htid]
  · intro ⟨hlt, hmod⟩
    exact ⟨i / threads, by rw [← hmod, Nat.mod_add_div], hlt⟩

theorem nodup_strided {start stop step : Nat} (hstep : 0 < step) : (strided start stop step).Nodup :=
  List.nodup_range' _ hstep

theorem sum_strided {threads : Nat} (hthreads : 0 < threads) (n : Nat) (f : Nat → M) :
    ∑ tid ∈ range threads, ((strided tid n threads).map f).sum = ∑ i ∈ range n, f i := by
  have hmaps : ∀ i ∈ range n, i % threads ∈ range threads := fun i _ => mem_range.mpr (Nat.mod_lt i hthreads)
  rw [← sum_fiberwise_of_maps_to hmaps f]
  refine sum_congr rfl fun tid htid => ?_
  rw [← List.sum_toFinset f (nodup_strided hthreads)]
  refine sum_congr ?_ fun _ _ => rfl
  ext i
  rw [List.mem_toFinset, mem_strided_iff (mem_range.mp htid), mem_filter, mem_range]

/-- A lane of a wave reads the lane `offset` further, and its own value past the end of the wave. -/
def shflDown (width : Nat) (values : Nat → M) (offset lane : Nat) : M :=
  if lane % width + offset < width then values (lane + offset) else values lane

def reduceStep (width : Nat) (values : Nat → M) (offset : Nat) : Nat → M :=
  fun lane => values lane + shflDown width values offset lane

/-- The values of `offset` in `for (offset = 2 ** n / 2; offset > 0; offset >>= 1)`. -/
def offsets : Nat → List Nat
  | 0 => []
  | n + 1 => 2 ^ n :: offsets n

def reduce (width : Nat) (values : Nat → M) (offsets : List Nat) : Nat → M :=
  offsets.foldl (reduceStep width) values

theorem reduce_offsets {width n : Nat} (hwidth : 2 ^ n ≤ width) (values : Nat → M) (wave : Nat) :
    reduce width values (offsets n) (width * wave) = ∑ i ∈ range (2 ^ n), values (width * wave + i) := by
  induction n generalizing values with
  | zero => rw [pow_zero, sum_range_one]; rfl
  | succ n ih =>
    have hdouble : 2 ^ (n + 1) = 2 ^ n + 2 ^ n := Nat.two_pow_succ n
    have hstep : ∀ i ∈ range (2 ^ n), reduceStep width values (2 ^ n) (width * wave + i) =
        values (width * wave + i) + values (width * wave + (2 ^ n + i)) := by
      intro i hi
      have hi : i < 2 ^ n := mem_range.mp hi
      have hmod : (width * wave + i) % width = i := by
        rw [Nat.mul_add_mod, Nat.mod_eq_of_lt (by omega)]
      rw [reduceStep, shflDown, hmod, if_pos (by omega), Nat.add_assoc, Nat.add_comm i]
    have hrest := ih (by omega) (reduceStep width values (2 ^ n))
    calc reduce width values (offsets (n + 1)) (width * wave)
        = ∑ i ∈ range (2 ^ n), reduceStep width values (2 ^ n) (width * wave + i) := hrest
      _ = ∑ i ∈ range (2 ^ n), (values (width * wave + i) + values (width * wave + (2 ^ n + i))) :=
          sum_congr rfl hstep
      _ = ∑ i ∈ range (2 ^ (n + 1)), values (width * wave + i) := by
          rw [hdouble, sum_add_distrib, sum_range_add]

theorem sum_waves (width waves : Nat) (f : Nat → M) :
    ∑ wave ∈ range waves, ∑ i ∈ range width, f (width * wave + i) = ∑ i ∈ range (width * waves), f i := by
  induction waves with
  | zero => rfl
  | succ waves ih => rw [sum_range_succ, ih, Nat.mul_succ, sum_range_add]

end Vllm.WaveSums
