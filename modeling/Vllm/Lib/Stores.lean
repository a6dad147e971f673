import Vllm.Lib.Result

namespace Vllm.Stores

variable {α β : Type}

def store (memory : List α) (cell : Nat) (a : α) : Result (List α) :=
  if cell < memory.length then .ok (memory.set cell a) else .error .indexError

structure Stored (cells : List Nat) (v : Nat → α) (old new : List α) : Prop where
  length : new.length = old.length
  getElem? : ∀ j, new[j]? = if j ∈ cells then some (v j) else old[j]?

variable {cells : List Nat} {v : Nat → α} {old new : List α}

theorem Stored.refl (memory : List α) : Stored [] v memory memory where
  length := rfl
  getElem? j := by simp

theorem Stored.trans {cells' : List Nat} {newer : List α} (h : Stored cells v old new)
    (h' : Stored cells' v new newer) : Stored (cells ++ cells') v old newer where
  length := h'.length.trans h.length
  getElem? j := by
    rw [h'.getElem?, h.getElem?]
    by_cases hin : j ∈ cells <;> by_cases hin' : j ∈ cells' <;> simp [hin, hin']

theorem store_stored {memory : List α} {cell : Nat} (h : cell < memory.length) :
    ∃ memory', store memory cell (v cell) = .ok memory' ∧ Stored [cell] v memory memory' := by
  refine ⟨memory.set cell (v cell), if_pos h, List.length_set, fun j => ?_⟩
  simp only [List.getElem?_set, List.mem_singleton]
  by_cases hj : cell = j
  · subst hj
    rw [if_pos rfl, if_pos h, if_pos rfl]
  · rw [if_neg hj, if_neg fun h => hj h.symm]

theorem foldlM_stored {body : List α → β → Result (List α)} {cells : β → List Nat} {n : Nat} {xs : List β}
    (h : ∀ x ∈ xs, ∀ memory, memory.length = n →
      ∃ memory', body memory x = .ok memory' ∧ Stored (cells x) v memory memory')
    {memory : List α} (hlen : memory.length = n) :
    ∃ memory', xs.foldlM body memory = .ok memory' ∧ Stored (xs.flatMap cells) v memory memory' := by
  induction xs generalizing memory with
  | nil => exact ⟨memory, rfl, .refl memory⟩
  | cons x xs ih =>
    obtain ⟨next, hnext, hstored⟩ := h x List.mem_cons_self memory hlen
    obtain ⟨last, hlast, hstored'⟩ :=
      ih (fun y hy => h y (List.mem_cons_of_mem _ hy)) (hstored.length.trans hlen)
    refine ⟨last, ?_, hstored.trans hstored'⟩
    rw [List.foldlM_cons, hnext]
    exact hlast

theorem Stored.eq_map (h : Stored cells v old new) (hall : ∀ j < old.length, j ∈ cells) :
    new = (List.range old.length).map v := by
  apply List.ext_getElem?
  intro j
  rw [List.getElem?_map]
  rcases Nat.lt_or_ge j old.length with hj | hj
  · rw [h.getElem?, if_pos (hall j hj), List.getElem?_range hj]
    rfl
  · rw [List.getElem?_eq_none (h.length ▸ hj), List.getElem?_eq_none (by simpa using hj)]
    rfl

end Vllm.Stores
