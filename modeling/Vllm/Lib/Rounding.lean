import Mathlib.Algebra.Order.Floor.Ring
import Mathlib.Algebra.Order.Field.Basic
import Mathlib.Data.Int.Order.Basic
import Mathlib.Tactic.Linarith

universe u

namespace Vllm.Rounding

variable {α : Type u} [Field α] [LinearOrder α] [IsStrictOrderedRing α] [FloorRing α] {x s : α} {n : ℤ}

def halfEven (x : α) : ℤ :=
  if 2 * (x - ⌊x⌋) < 1 then ⌊x⌋
  else if 1 < 2 * (x - ⌊x⌋) then ⌊x⌋ + 1
  else if ⌊x⌋ % 2 = 0 then ⌊x⌋ else ⌊x⌋ + 1

omit [IsStrictOrderedRing α] in
theorem halfEven_cases (x : α) :
    (halfEven x = ⌊x⌋ ∧ 2 * (x - ⌊x⌋) ≤ 1) ∨ (halfEven x = ⌊x⌋ + 1 ∧ 1 ≤ 2 * (x - ⌊x⌋)) := by
  unfold halfEven
  split
  · rename_i hlt
    exact .inl ⟨rfl, hlt.le⟩
  · rename_i hge
    split
    · rename_i hlt
      exact .inr ⟨rfl, hlt.le⟩
    · rename_i hle
      split
      · exact .inl ⟨rfl, not_lt.mp hle⟩
      · exact .inr ⟨rfl, not_lt.mp hge⟩

theorem abs_halfEven_sub_le (x : α) : 2 * |(halfEven x : α) - x| ≤ 1 := by
  have hfloor := Int.floor_le x
  have hceil := Int.lt_floor_add_one x
  rcases halfEven_cases x with ⟨heq, hle⟩ | ⟨heq, hle⟩
  · rw [heq, abs_sub_comm, abs_of_nonneg (by linarith)]
    exact hle
  · rw [heq, Int.cast_add, Int.cast_one, abs_of_nonneg (by linarith)]
    linarith

theorem halfEven_le (h : x ≤ n) : halfEven x ≤ n := by
  rcases halfEven_cases x with ⟨heq, -⟩ | ⟨heq, hle⟩
  · rw [heq]
    exact_mod_cast (Int.floor_le x).trans h
  · -- rounded up, so the integer above is not past the bound
    rw [heq]
    by_contra hgt
    have hn : n ≤ ⌊x⌋ := by omega
    have : (n : α) ≤ ⌊x⌋ := by exact_mod_cast hn
    linarith

omit [IsStrictOrderedRing α] in
theorem le_halfEven (h : (n : α) ≤ x) : n ≤ halfEven x := by
  have hfloor : n ≤ ⌊x⌋ := Int.le_floor.mpr h
  rcases halfEven_cases x with ⟨heq, -⟩ | ⟨heq, -⟩ <;> omega

theorem abs_halfEven_le (h : |x| ≤ n) : |halfEven x| ≤ n := by
  obtain ⟨hneg, hpos⟩ := abs_le.mp h
  have hlow : ((-n : ℤ) : α) ≤ x := by
    push_cast
    exact hneg
  exact abs_le.mpr ⟨le_halfEven hlow, halfEven_le hpos⟩

theorem abs_halfEven_mul_sub_le (hs : 0 < s) (x : α) : |(halfEven (x / s) : α) * s - x| ≤ s / 2 := by
  have hround := abs_halfEven_sub_le (x / s)
  have hscale : (halfEven (x / s) : α) * s - x = ((halfEven (x / s) : α) - x / s) * s := by
    rw [sub_mul, div_mul_cancel₀ x hs.ne']
  rw [hscale, abs_mul, abs_of_pos hs]
  have := mul_le_mul_of_nonneg_right hround hs.le
  linarith

end Vllm.Rounding
