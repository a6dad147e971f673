import Mathlib.Algebra.Order.BigOperators.Group.Finset
import Mathlib.Algebra.Order.Ring.Nat
import Mathlib.Data.Nat.Cast.Order.Basic
import Mathlib.Tactic.Linarith

universe u v

namespace Vllm.Greedy

variable {ι : Type u} {α : Type v} {s : Finset ι} {i j : ι}

section Allotment

variable [LinearOrder α] {load : ι → Nat → α} {count count' : ι → Nat}

def Allotted (s : Finset ι) (load : ι → Nat → α) (count : ι → Nat) : Prop :=
  ∀ i ∈ s, 1 < count i → ∀ j ∈ s, load j (count j) ≤ load i (count i - 1)

def Shared (s : Finset ι) (load : ι → Nat → α) : Prop := ∀ i ∈ s, ∀ m n, 0 < m → m ≤ n → load i n ≤ load i m

theorem Allotted.give (h : Allotted s load count) (hshared : Shared s load) (hpos : ∀ j ∈ s, 0 < count j)
    (hmax : ∀ j ∈ s, load j (count j) ≤ load i (count i)) (hself : count' i = count i + 1)
    (hother : ∀ j, j ≠ i → count' j = count j) : Allotted s load count' := by
  have hless : ∀ j ∈ s, load j (count' j) ≤ load j (count j) := by
    intro j hj
    by_cases hji : j = i
    · subst hji
      exact hself ▸ hshared j hj _ _ (hpos j hj) (Nat.le_succ _)
    · rw [hother j hji]
  intro e he hmany j hj
  by_cases hei : e = i
  · subst hei
    rw [hself, Nat.add_sub_cancel]
    exact (hless j hj).trans (hmax j hj)
  · rw [hother e hei] at hmany ⊢
    exact (hless j hj).trans (h e he hmany j hj)

end Allotment

section Packing

variable [CommRing α] [LinearOrder α] [IsStrictOrderedRing α] {load load' : ι → α} {items items' : ι → Nat} {k : Nat}
  {m y z : α}

def Level (s : Finset ι) (k : Nat) (m : α) (load : ι → α) (items : ι → Nat) (y : α) : Prop :=
  ∀ p ∈ s, ∀ q ∈ s, load p + (k - items p : Nat) * y ≤ load q + (k - items q : Nat) * y + m

omit [IsStrictOrderedRing α] in
theorem Level.le (h : Level s k m load items 0) (hi : i ∈ s) (hj : j ∈ s) : load i ≤ load j + m := by
  simpa using h i hi j hj

theorem Level.put (h : Level s k m load items y) (hz : Level s k m load items z) (hy : 0 ≤ y) (hyz : y ≤ z) (hzm : z ≤ m)
    (hi : i ∈ s) (hfree : items i < k) (hmin : ∀ j ∈ s, items j < k → load i ≤ load j)
    (hself : load' i = load i + z ∧ items' i = items i + 1)
    (hother : ∀ j, j ≠ i → load' j = load j ∧ items' j = items j) : Level s k m load' items' y := by
  obtain ⟨n, hn⟩ : ∃ n, k - items i = n + 1 := ⟨k - items i - 1, by omega⟩
  have hn' : k - items' i = n := by rw [hself.2]; omega
  intro p hp q hq
  by_cases hpi : p = i
  · subst hpi
    by_cases hqi : q = p
    · rw [hqi]
      linarith
    · rw [(hother q hqi).1, (hother q hqi).2, hself.1, hn']
      have hat := hz p hp q hq
      rw [hn, Nat.cast_succ] at hat
      by_cases hroom : items q < k ∧ n ≤ k - items q
      · have hle : (n : α) * y ≤ (k - items q : Nat) * y := mul_le_mul_of_nonneg_right (Nat.cast_le.mpr hroom.2) hy
        have hlight := hmin q hq hroom.1
        linarith
      · -- the pack was lighter by the places that it has more
        have hfew : k - items q ≤ n := by omega
        have hle : ((k - items q : Nat) : α) * (z - y) ≤ n * (z - y) :=
          mul_le_mul_of_nonneg_right (Nat.cast_le.mpr hfew) (sub_nonneg.mpr hyz)
        linarith
  · rw [(hother p hpi).1, (hother p hpi).2]
    by_cases hqi : q = i
    · have hat := h p hp q hq
      rw [hqi, hn, Nat.cast_succ] at hat
      rw [hqi, hself.1, hn']
      linarith
    · rw [(hother q hqi).1, (hother q hqi).2]
      exact h p hp q hq

end Packing

end Vllm.Greedy
