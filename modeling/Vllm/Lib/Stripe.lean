import Mathlib.Data.Nat.Count
import Mathlib.Tactic.Ring

/-! Positions dealt out round robin to `W` ranks in stripes of `I`: how many of them a rank keeps, and
where the kept ones come to lie when they are stored one behind the other. -/

namespace Vllm.Stripe

def Local (W I r p : Nat) : Prop := p / I % W = r

instance (W I r : Nat) : DecidablePred (Local W I r) := fun p =>
  inferInstanceAs (Decidable (p / I % W = r))

variable {W I r k : Nat}

theorem local_iff (hI : 0 < I) (p : Nat) :
    Local W I r p ↔ r * I ≤ p % (I * W) ∧ p % (I * W) < r * I + I := by
  rw [Local, ← Nat.mod_mul_right_div_self, Nat.div_eq_iff hI]
  constructor
  · rintro ⟨h₁, h₂⟩
    exact ⟨h₁, by omega⟩
  · rintro ⟨h₁, h₂⟩
    exact ⟨h₁, by omega⟩

theorem stripe_le (hr : r < W) : r * I + I ≤ I * W := by
  calc r * I + I = I * (r + 1) := by ring
    _ ≤ I * W := Nat.mul_le_mul_left I hr

theorem succ_div_mod {M : Nat} (hM : 0 < M) (L : Nat) :
    (L % M + 1 < M ∧ (L + 1) / M = L / M ∧ (L + 1) % M = L % M + 1) ∨
      (L % M + 1 = M ∧ (L + 1) / M = L / M + 1 ∧ (L + 1) % M = 0) := by
  have hL := Nat.div_add_mod L M
  have hlt := Nat.mod_lt L hM
  by_cases h : L % M + 1 < M
  · refine .inl ⟨h, (Nat.div_mod_unique hM).mpr ⟨?_, h⟩⟩
    omega
  · refine .inr ⟨by omega, (Nat.div_mod_unique hM).mpr ⟨?_, hM⟩⟩
    rw [Nat.mul_add, Nat.mul_one]
    omega

theorem count_local (hI : 0 < I) (hr : r < W) (L : Nat) :
    Nat.count (Local W I r) L = L / (I * W) * I + min (L % (I * W) - r * I) I := by
  have hle := stripe_le (I := I) hr
  have hM : 0 < I * W := by omega
  induction L with
  | zero => simp
  | succ L ih =>
    rw [Nat.count_succ, ih]
    simp only [local_iff hI]
    generalize I * W = M at hle hM ⊢
    generalize r * I = a at hle ⊢
    rcases succ_div_mod hM L with ⟨hlt, hdiv, hmod⟩ | ⟨heq, hdiv, hmod⟩
    · rw [hdiv, hmod]
      split <;> omega
    · rw [hdiv, hmod, Nat.add_mul, Nat.one_mul]
      split <;> omega

theorem count_of_local (hI : 0 < I) (hr : r < W) {p : Nat} (hp : Local W I r p) :
    Nat.count (Local W I r) p = p / (I * W) * I + p % I := by
  obtain ⟨h₁, h₂⟩ := (local_iff hI p).mp hp
  have hmod : p % I = p % (I * W) - r * I := by
    rw [← Nat.mod_mul_right_mod p I W]
    conv_lhs => rw [← Nat.sub_add_cancel h₁, Nat.add_mul_mod_self_right]
    exact Nat.mod_eq_of_lt (by omega)
  rw [count_local hI hr, hmod]
  omega

theorem div_mod_of_local (hI : 0 < I) (hr : r < W) {p : Nat} (hp : Local W I r p) :
    p / (k * I * W) = Nat.count (Local W I r) p / (k * I) ∧
      p % (k * I * W) / (W * I) * I + p % (k * I * W) % I =
        Nat.count (Local W I r) p % (k * I) := by
  have hM : 0 < I * W := Nat.mul_pos hI (Nat.lt_of_le_of_lt (Nat.zero_le r) hr)
  have hdiv : p / (k * I * W) = p / (I * W) / k := by
    rw [Nat.div_div_eq_div_mul]
    congr 1
    ring
  have hround : p % (k * I * W) / (W * I) = p / (I * W) % k := by
    have : k * I * W = W * I * k := by ring
    rw [this, Nat.mod_mul_right_div_self, Nat.mul_comm W I]
  have hplace : p % (k * I * W) % I = p % I := by
    have : k * I * W = I * (k * W) := by ring
    rw [this, Nat.mod_mul_right_mod]
  have hlt := Nat.mod_lt p hI
  rw [hdiv, hround, hplace, count_of_local hI hr hp, Nat.mul_comm k I]
  generalize p / (I * W) = q
  generalize p % I = o at hlt
  constructor
  · rw [← Nat.div_div_eq_div_mul, Nat.mul_comm q I, Nat.mul_add_div hI, Nat.div_eq_of_lt hlt,
      Nat.add_zero]
  · rw [Nat.mod_mul, Nat.mul_comm q I, Nat.mul_add_mod, Nat.mod_eq_of_lt hlt, Nat.mul_add_div hI,
      Nat.div_eq_of_lt hlt, Nat.add_zero]
    ring

end Vllm.Stripe
