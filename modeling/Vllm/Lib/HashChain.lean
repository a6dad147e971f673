import Mathlib.Logic.Function.Basic
import Mathlib.Data.Set.Basic
import Mathlib.Data.Set.Operations
import Mathlib.Data.List.Nodup

universe u v

namespace Vllm.HashChain

variable {H : Type u} {M : Type v}

def link (f : H → M → H) (seed : H) (m : Nat → M) : Nat → H
  | 0 => f seed (m 0)
  | i + 1 => f (link f seed m i) (m (i + 1))

theorem link_congr (f : H → M → H) (seed : H) {m m' : Nat → M} {i : Nat}
    (h : ∀ j ≤ i, m j = m' j) : link f seed m i = link f seed m' i := by
  induction i with
  | zero => simp only [link, h 0 (Nat.le_refl 0)]
  | succ i ih =>
    simp only [link, h (i + 1) (Nat.le_refl _)]
    rw [ih fun j hj => h j (Nat.le_succ_of_le hj)]

theorem link_inj {f : H → M → H} (hf : Function.Injective2 f) {seed : H} {m m' : Nat → M}
    {i : Nat} (h : link f seed m i = link f seed m' i) : ∀ j ≤ i, m j = m' j := by
  induction i with
  | zero =>
    intro j hj
    rw [Nat.le_zero.mp hj]
    exact (hf h).2
  | succ i ih =>
    obtain ⟨hparent, hmsg⟩ := hf h
    intro j hj
    rcases Nat.lt_or_ge i j with hij | hij
    · rwa [Nat.le_antisymm hj hij]
    · exact ih hparent j hij

theorem link_eq_iff {f : H → M → H} (hf : Function.Injective2 f) {seed : H} {m m' : Nat → M}
    {i : Nat} : link f seed m i = link f seed m' i ↔ ∀ j ≤ i, m j = m' j :=
  ⟨link_inj hf, link_congr f seed⟩

def Linked (f : H → M → H) : H → List H → Prop
  | _, [] => True
  | seed, x :: xs => (∃ m, x = f seed m) ∧ Linked f x xs

theorem Linked.append {f : H → M → H} {seed : H} {l l' : List H} (h : Linked f seed l)
    (h' : Linked f (l.getLastD seed) l') : Linked f seed (l ++ l') := by
  induction l generalizing seed with
  | nil => exact h'
  | cons x l ih =>
    refine ⟨h.1, ih h.2 ?_⟩
    rwa [List.getLastD_cons] at h'

theorem Linked.parent {f : H → M → H} {seed : H} {l : List H} (h : Linked f seed l) {i : Nat}
    {x : H} (hx : l[i]? = some x) : ∃ p m, (seed :: l)[i]? = some p ∧ x = f p m := by
  induction l generalizing seed i with
  | nil => simp at hx
  | cons y l ih =>
    cases i with
    | zero =>
      obtain ⟨⟨m, hm⟩, -⟩ := h
      rw [List.getElem?_cons_zero, Option.some_inj] at hx
      exact ⟨seed, m, rfl, hx ▸ hm⟩
    | succ i => exact ih h.2 (by simpa using hx)

theorem Linked.nodup {f : H → M → H} (hf : Function.Injective2 f) {seed : H}
    (hseed : ∀ a b, f a b ≠ seed) {l : List H} (h : Linked f seed l) : (seed :: l).Nodup := by
  have hne : ∀ (i j : Nat) (x : H), (seed :: l)[i]? = some x → (seed :: l)[i + j + 1]? ≠ some x := by
    intro i
    induction i with
    | zero =>
      intro j x hi hj
      rw [List.getElem?_cons_zero, Option.some_inj] at hi
      rw [List.getElem?_cons_succ] at hj
      obtain ⟨p, m, -, hx⟩ := h.parent hj
      exact hseed p m (hx.symm.trans hi.symm)
    | succ i ih =>
      intro j x hi hj
      rw [List.getElem?_cons_succ] at hi hj
      obtain ⟨p, m, hp, hx⟩ := h.parent hi
      obtain ⟨q, n, hq, hx'⟩ := h.parent hj
      have hpq := (hf (hx.symm.trans hx')).1
      rw [show i + 1 + j = i + j + 1 by omega, ← hpq] at hq
      exact ih j p hp hq
  rw [List.nodup_iff_getElem?_ne_getElem?]
  intro i j hij hj heq
  obtain ⟨x, hx⟩ : ∃ x, (seed :: l)[i]? = some x := by
    rw [List.getElem?_eq_getElem (Nat.lt_trans hij hj)]
    exact ⟨_, rfl⟩
  refine hne i (j - i - 1) x hx ?_
  rw [show i + (j - i - 1) + 1 = j by omega, ← heq, hx]

end Vllm.HashChain
