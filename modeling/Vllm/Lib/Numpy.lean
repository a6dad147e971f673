import Vllm.Lib.Py
import Vllm.Lib.Ragged
import Mathlib.Data.List.Sort
import Mathlib.Data.List.MinMax
import Mathlib.Data.List.FinRange
import Mathlib.Data.List.GetD
import Mathlib.Order.WithBot

/-! Rows of numpy arrays. What the numpy manual leaves open, the order of equal keys in `argsort`
and the contents of `np.empty`, is a parameter. -/

namespace Vllm

structure Numpy where
  argsort : {α : Type} → [LinearOrder α] → List α → List Nat
  argsort_perm {α : Type} [LinearOrder α] (l : List α) :
    (argsort l).Perm (List.range l.length)
  argsort_sorted {α : Type} [LinearOrder α] (l : List α) :
    (argsort l).Pairwise fun i j => ∀ a ∈ l[i]?, ∀ b ∈ l[j]?, a ≤ b
  empty : Nat → List Int
  length_empty (n : Nat) : (empty n).length = n

namespace Numpy

variable {α : Type}

def argmin [LinearOrder α] (l : List α) : Result Nat :=
  match (List.finRange l.length).argmin l.get with
  | some i => .ok i
  | none => .error (.valueError "attempt to get argmin of an empty sequence")

def argmax [LinearOrder α] (l : List α) : Result Nat :=
  match (List.finRange l.length).argmax l.get with
  | some i => .ok i
  | none => .error (.valueError "attempt to get argmax of an empty sequence")

def item (l : List α) (i : Int) : Result α :=
  match Py.index l.length i with
  | some k => Result.getItem l k
  | none => .error .indexError

/-- `np.take_along_axis` in one row. -/
def take (l : List α) (indices : List Int) : Result (List α) := indices.mapM (item l)

def setItem (l : List α) (i : Int) (x : α) : Result (List α) :=
  match Py.index l.length i with
  | some k => .ok (l.set k x)
  | none => .error .indexError

/-- `l[indices] = values`, written from the left. -/
def put (l : List α) : List (Int × α) → Result (List α)
  | [] => .ok l
  | (i, x) :: writes => do
    let l ← setItem l i x
    put l writes

/-- `l.reshape(n, k)`. -/
def rows : Nat → Nat → List α → List (List α)
  | 0, _, _ => []
  | n + 1, k, l => l.take k :: rows n k (l.drop k)

def insertion : Numpy where
  argsort l := (List.range l.length).insertionSort
    fun i j => (show WithBot _ from l[i]?) ≤ (show WithBot _ from l[j]?)
  argsort_perm l := List.perm_insertionSort _ _
  argsort_sorted l := by
    refine (List.pairwise_insertionSort _ _).imp fun {i j} h a ha b hb => ?_
    rw [Option.mem_def.1 ha, Option.mem_def.1 hb] at h
    exact WithBot.coe_le_coe.1 h
  empty n := List.replicate n 0
  length_empty _ := List.length_replicate

section Items

variable {l : List α} {ks : List Nat} {k : Nat}

theorem getD_set_self (d x : α) (h : k < l.length) : (l.set k x).getD k d = x := by
  rw [List.getD_eq_getElem?_getD, List.getElem?_set_self h, Option.getD_some]

theorem getD_set_ne {j : Nat} (d x : α) (h : j ≠ k) : (l.set k x).getD j d = l.getD j d := by
  rw [List.getD_eq_getElem?_getD, List.getElem?_set_ne h.symm, List.getD_eq_getElem?_getD]

theorem index_natCast {n : Nat} (h : k < n) : Py.index n (k : Int) = some k := by
  rw [Py.index, if_pos (by omega), if_pos (by omega), Int.toNat_natCast]

theorem item_natCast (d : α) (h : k < l.length) : item l (k : Int) = .ok (l.getD k d) := by
  rw [item, index_natCast h]
  simp [List.getD_eq_getElem?_getD, h]

theorem setItem_natCast (x : α) (h : k < l.length) :
    setItem l (k : Int) x = .ok (l.set k x) := by
  rw [setItem, index_natCast h]

theorem take_natCast (d : α) (h : ∀ k ∈ ks, k < l.length) :
    take l (ks.map fun k : Nat => (k : Int)) = .ok (ks.map fun k => l.getD k d) := by
  induction ks with
  | nil => rfl
  | cons k ks ih =>
    rw [take, List.map_cons, List.mapM_cons, item_natCast d (h k List.mem_cons_self)]
    have htail := ih fun j hj => h j (List.mem_cons_of_mem k hj)
    rw [take] at htail
    rw [htail]
    rfl

theorem finRange_ne_nil (h : l ≠ []) : List.finRange l.length ≠ [] := by
  rw [← List.length_pos_iff, List.length_finRange]
  exact List.length_pos_iff.2 h

theorem map_getD_range (l : List α) (d : α) :
    (List.range l.length).map (fun k => l.getD k d) = l := by
  apply List.ext_getElem
  · simp
  · intro i h _
    rw [List.length_map, List.length_range] at h
    simp [h]

theorem zipWith_eq_map_range {β γ : Type} {m : List β} (f : α → β → γ) (d : α) (e : β)
    (h : m.length = l.length) : l.zipWith f m =
      (List.range l.length).map fun k => f (l.getD k d) (m.getD k e) := by
  apply List.ext_getElem
  · simp [h]
  · intro i hi _
    rw [List.length_zipWith, h, Nat.min_self] at hi
    simp [hi, h]

theorem put_natCast (d : α) {xs : List α} (h : ∀ k ∈ ks, k < l.length) (hks : ks.Nodup)
    (hxs : xs.length = ks.length) :
    ∃ l', put l ((ks.map fun k : Nat => (k : Int)).zip xs) = .ok l' ∧ l'.length = l.length ∧
      ks.map (fun k => l'.getD k d) = xs ∧ ∀ k, k ∉ ks → l'.getD k d = l.getD k d := by
  induction ks generalizing l xs with
  | nil =>
    obtain rfl := List.length_eq_zero_iff.1 hxs
    exact ⟨l, rfl, rfl, rfl, fun _ _ => rfl⟩
  | cons k ks ih =>
    obtain ⟨x, xs, rfl⟩ := List.exists_cons_of_length_eq_add_one hxs
    obtain ⟨hk, hks⟩ := List.nodup_cons.1 hks
    have hklen := h k List.mem_cons_self
    obtain ⟨l', hput, hlen, hmap, hother⟩ := ih (l := l.set k x)
      (fun j hj => by
        rw [List.length_set]
        exact h j (List.mem_cons_of_mem k hj))
      hks (Nat.succ.inj hxs)
    refine ⟨l', ?_, hlen.trans List.length_set, ?_, ?_⟩
    · rw [List.map_cons, List.zip_cons_cons, put, setItem_natCast x hklen]
      exact hput
    · rw [List.map_cons, hmap, hother k hk, getD_set_self d x hklen]
    · intro j hj
      rw [List.mem_cons, not_or] at hj
      rw [hother j hj.2, getD_set_ne d x hj.1]

end Items

section Order

variable [LinearOrder α] {l : List α} {i : Nat}

theorem argmin_ok (h : l ≠ []) :
    ∃ i, argmin l = .ok i ∧ i < l.length ∧ ∀ d, ∀ x ∈ l, l.getD i d ≤ x := by
  obtain ⟨i, hi⟩ := Option.ne_none_iff_exists'.1
    (mt List.argmin_eq_none.1 (finRange_ne_nil h) : (List.finRange _).argmin l.get ≠ none)
  refine ⟨i, by rw [argmin, hi], i.isLt, fun d x hx => ?_⟩
  obtain ⟨j, rfl⟩ := List.get_of_mem hx
  rw [List.getD_eq_getElem _ _ i.isLt]
  exact List.le_of_mem_argmin (List.mem_finRange j) hi

theorem argmax_ok (h : l ≠ []) : ∃ i, argmax l = .ok i ∧ i < l.length := by
  obtain ⟨i, hi⟩ := Option.ne_none_iff_exists'.1
    (mt List.argmax_eq_none.1 (finRange_ne_nil h) : (List.finRange _).argmax l.get ≠ none)
  exact ⟨i, by rw [argmax, hi], i.isLt⟩

theorem le_of_argmax {i : Nat} (h : argmax l = .ok i) : ∀ d, ∀ x ∈ l, x ≤ l.getD i d := by
  unfold argmax at h
  split at h
  · rename_i j hj
    cases h
    intro d x hx
    obtain ⟨k, rfl⟩ := List.get_of_mem hx
    rw [List.getD_eq_getElem _ _ j.isLt]
    exact List.le_of_mem_argmax (List.mem_finRange k) hj
  · cases h

theorem take_countP_of_pairwise {β : Type} {m : List β} {p : β → Bool}
    (h : m.Pairwise fun a b => p b = true → p a = true) : m.take (m.countP p) = m.filter p := by
  induction m with
  | nil => rfl
  | cons a m ih =>
    obtain ⟨ha, hm⟩ := List.pairwise_cons.1 h
    by_cases hp : p a = true
    · rw [List.countP_cons_of_pos hp, List.take_succ_cons, List.filter_cons_of_pos hp, ih hm]
    · have hnone : ∀ b ∈ m, ¬ p b = true := fun b hb hpb => hp (ha b hb hpb)
      rw [List.countP_cons_of_neg hp, List.countP_eq_zero.2 hnone, List.take_zero,
        List.filter_cons_of_neg hp, List.filter_eq_nil_iff.2 hnone]

theorem argsort_take (np : Numpy) (l : List α) {p : Nat → Bool}
    (hp : ∀ i j a b, l[i]? = some a → l[j]? = some b → p i = false → p j = true → b < a) :
    ((np.argsort l).take ((List.range l.length).countP p)).Perm
      ((List.range l.length).filter p) := by
  have hperm := np.argsort_perm l
  have hpair : (np.argsort l).Pairwise fun i j => p j = true → p i = true := by
    refine (np.argsort_sorted l).imp_of_mem fun {i j} hi hj hle hpj => ?_
    have hi := List.mem_range.1 (hperm.mem_iff.1 hi)
    have hj := List.mem_range.1 (hperm.mem_iff.1 hj)
    by_contra hpi
    have hlt := hp i j _ _ (List.getElem?_eq_getElem hi) (List.getElem?_eq_getElem hj)
      (Bool.not_eq_true _ ▸ hpi) hpj
    exact absurd (hle _ (List.getElem?_eq_getElem hi) _ (List.getElem?_eq_getElem hj))
      (not_le.2 hlt)
  rw [← hperm.countP_eq, take_countP_of_pairwise hpair]
  exact hperm.filter p

end Order

section Rows

variable {n k : Nat} {l row : List α}

@[simp] theorem length_rows (n k : Nat) (l : List α) : (rows n k l).length = n := by
  induction n generalizing l with
  | zero => rfl
  | succ n ih => rw [rows, List.length_cons, ih]

theorem length_of_mem_rows (hl : l.length = n * k) (h : row ∈ rows n k l) : row.length = k := by
  induction n generalizing l with
  | zero => cases h
  | succ n ih =>
    rw [Nat.succ_mul] at hl
    rcases List.mem_cons.1 h with rfl | h
    · rw [List.length_take]
      omega
    · exact ih (by rw [List.length_drop]; omega) h

end Rows

end Numpy

namespace Py

/-- `l[start:stop:step]`. -/
def getSlice {α : Type} (l : List α) (s : Slice) : Result (List α) := do
  let (start, stop, step) ← s.indices l.length
  (range start stop step).mapM (Numpy.item l)

end Py

end Vllm
