import Mathlib.Data.List.Basic

namespace Vllm

variable {α : Type} [DecidableEq α] {l : List α} {n : Nat} {v : α}

theorem take_erase_of_notMem (h : v ∉ l.take n) : (l.erase v).take n = l.take n := by
  induction l generalizing n with
  | nil => rfl
  | cons a l ih =>
    cases n with
    | zero => rfl
    | succ n =>
      rw [List.take_succ_cons, List.mem_cons, not_or] at h
      rw [List.erase_cons_tail (by simpa using Ne.symm h.1), List.take_succ_cons, List.take_succ_cons, ih h.2]

theorem take_erase_pred (h : v ∈ l.take n) : (l.erase v).take (n - 1) = (l.take n).erase v := by
  induction l generalizing n with
  | nil => simp at h
  | cons a l ih =>
    cases n with
    | zero => simp at h
    | succ n =>
      rw [List.take_succ_cons, List.mem_cons] at h
      by_cases ha : a = v
      · subst ha
        rw [List.erase_cons_head, List.take_succ_cons, List.erase_cons_head, Nat.succ_sub_one]
      · have hmem := h.resolve_left (Ne.symm ha)
        cases n with
        | zero => simp at hmem
        | succ n =>
          rw [List.erase_cons_tail (by simpa using ha), List.take_succ_cons, List.erase_cons_tail (by simpa using ha),
            Nat.succ_sub_one, List.take_succ_cons]
          exact congrArg (a :: ·) (ih hmem)

theorem take_erase_of_mem (h : v ∈ l.take n) : (l.erase v).take n = (l.take n).erase v ++ l[n]?.toList := by
  induction l generalizing n with
  | nil => simp at h
  | cons a l ih =>
    cases n with
    | zero => simp at h
    | succ n =>
      rw [List.take_succ_cons, List.mem_cons] at h
      rw [List.take_succ_cons, List.getElem?_cons_succ]
      by_cases ha : a = v
      · subst ha
        rw [List.erase_cons_head, List.erase_cons_head, List.take_add_one]
      · rw [List.erase_cons_tail (by simpa using ha), List.erase_cons_tail (by simpa using ha), List.take_succ_cons,
          List.cons_append, ih (h.resolve_left (Ne.symm ha))]

theorem take_erase_subset : (l.erase v).take n ⊆ l.take (n + 1) := by
  by_cases h : v ∈ l.take (n + 1)
  · have hpred := take_erase_pred h
    rw [Nat.add_sub_cancel] at hpred
    rw [hpred]
    exact List.erase_subset
  · intro x hx
    have hsub : x ∈ (l.erase v).take (n + 1) := List.take_subset_take_left _ n.le_succ hx
    rwa [take_erase_of_notMem h] at hsub

end Vllm
