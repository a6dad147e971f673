import Mathlib.Algebra.BigOperators.Group.List.Basic
import Mathlib.Algebra.GroupWithZero.Nat
import Mathlib.Algebra.Ring.Int.Defs
import Mathlib.Data.List.Basic
import Mathlib.Data.List.GetD
import Mathlib.Data.List.Nodup
import Mathlib.Data.List.Perm.Basic
import Mathlib.Data.List.Perm.Subperm
import Mathlib.Data.List.Range
import Mathlib.Tactic.Common

universe u

namespace Vllm.Ragged

variable {n k i j : Nat} {count count' : Nat → Nat}

/-- The places of the first `n` rows. -/
def places (n : Nat) (count : Nat → Nat) : List (Nat × Nat) :=
  (List.range n).flatMap fun i => (List.range (count i)).map fun k => (i, k)

@[simp] theorem mem_places : (i, j) ∈ places n count ↔ i < n ∧ j < count i := by
  simp [places]

theorem nodup_places (n : Nat) (count : Nat → Nat) : (places n count).Nodup := by
  refine List.nodup_flatMap.2 ⟨fun i _ => ?_, ?_⟩
  · exact List.nodup_range.map fun a b h => (Prod.mk.inj h).2
  · refine List.nodup_range.pairwise_of_forall_ne fun i _ j _ hij => ?_
    intro x hi hj
    rw [List.mem_map] at hi hj
    obtain ⟨a, -, rfl⟩ := hi
    obtain ⟨b, -, hb⟩ := hj
    exact hij (Prod.mk.inj hb).1.symm

theorem length_places (n : Nat) (count : Nat → Nat) :
    (places n count).length = ((List.range n).map count).sum := by
  simp [places, List.length_flatMap]

theorem places_congr (h : ∀ i < n, count i = count' i) : places n count = places n count' :=
  List.flatMap_congr fun i hi => by rw [h i (List.mem_range.1 hi)]

theorem places_perm_cons (hi : i < n) (hcount : count' i = count i + 1)
    (hother : ∀ j, j ≠ i → count' j = count j) :
    (places n count').Perm ((i, count i) :: places n count) := by
  refine (List.perm_ext_iff_of_nodup (nodup_places n count') ?_).2 ?_
  · refine List.nodup_cons.2 ⟨?_, nodup_places n count⟩
    rw [mem_places]
    omega
  · rintro ⟨a, b⟩
    rw [List.mem_cons, mem_places, mem_places, Prod.mk.injEq]
    by_cases ha : a = i
    · subst ha
      rw [hcount]
      omega
    · rw [hother a ha]
      simp [ha]

theorem places_succ (n : Nat) (count : Nat → Nat) :
    places (n + 1) count = places n count ++ (List.range (count n)).map fun k => (n, k) := by
  simp [places, List.range_succ]

theorem map_places_const (n k : Nat) : (places n fun _ => k).map (fun x => x.1 * k + x.2) =
    List.range (n * k) := by
  induction n with
  | zero => simp [places]
  | succ n ih =>
    rw [places_succ, List.map_append, ih, List.map_map, Nat.succ_mul, List.range_add]
    rfl

theorem length_places_const (n k : Nat) : (places n fun _ => k).length = n * k := by
  rw [← List.length_map, map_places_const, List.length_range]

theorem places_add (n m : Nat) (count : Nat → Nat) : places (n + m) count =
    places n count ++ (places m fun i => count (n + i)).map fun x => (n + x.1, x.2) := by
  simp only [places, List.range_add, List.flatMap_append, List.flatMap_map, List.map_flatMap,
    List.map_map]
  rfl

theorem places_one (n : Nat) : places n (fun _ => 1) = (List.range n).map fun i => (i, 0) := by
  simp only [places, List.range_one, List.map_cons, List.map_nil]
  exact (List.map_eq_flatMap).symm

theorem places_perm_const (hle : ∀ i < n, count i ≤ k) (hlen : (places n count).length = n * k) :
    (places n count).Perm (places n fun _ => k) := by
  have hsub : (places n count).Subperm (places n fun _ => k) := by
    refine (nodup_places n count).subperm ?_
    rintro ⟨i, j⟩ hx
    rw [mem_places] at hx ⊢
    exact ⟨hx.1, lt_of_lt_of_le hx.2 (hle i hx.1)⟩
  refine hsub.perm_of_length_le ?_
  rw [hlen, length_places_const]

theorem places_perm_relabel {σ : List Nat} (h : σ.Perm (List.range σ.length)) (count : Nat → Nat) :
    (places σ.length count).Perm
      ((places σ.length fun i => count (σ.getD i 0)).map fun x => (σ.getD x.1 0, x.2)) := by
  have hσ : σ = (List.range σ.length).map fun i => σ.getD i 0 := by
    apply List.ext_getElem
    · simp
    · intro i hi _
      simp [hi]
  have hflat := (h.symm.flatMap_right fun i => (List.range (count i)).map fun k => (i, k))
  refine hflat.trans (List.Perm.of_eq ?_)
  conv_lhs => rw [hσ]
  simp only [places, List.flatMap_map, List.map_flatMap, List.map_map]
  rfl

theorem flatMap_places {k : Nat} {counts : List (List Nat)} (h : ∀ c ∈ counts, c.length = k)
    (j : Nat) :
    ((counts.zipIdx j).flatMap fun c =>
      (places k fun i => c.1.getD i 0).map fun x => (x.1 + c.2 * k, x.2)) =
    (places (counts.length * k) fun i => counts.flatten.getD i 0).map
      fun x => (x.1 + j * k, x.2) := by
  induction counts generalizing j with
  | nil => simp [places]
  | cons c counts ih =>
    have hc := h c List.mem_cons_self
    rw [List.zipIdx_cons, List.flatMap_cons, ih (fun c hc => h c (List.mem_cons_of_mem _ hc)),
      List.length_cons, Nat.succ_mul counts.length, Nat.add_comm _ k, places_add, List.map_append,
      List.map_map]
    congr 1
    · refine congrArg (List.map _) (places_congr fun i hi => ?_)
      rw [List.flatten_cons, List.getD_append _ _ _ _ (hc ▸ hi)]
    · have hrest : ∀ i, (c :: counts).flatten.getD (k + i) 0 = counts.flatten.getD i 0 := by
        intro i
        rw [List.flatten_cons, List.getD_append_right _ _ _ _ (by omega), hc,
          Nat.add_sub_cancel_left]
      simp only [hrest]
      refine List.map_congr_left fun x _ => ?_
      simp only [Function.comp_apply, Prod.mk.injEq, and_true]
      rw [Nat.succ_mul]
      omega

theorem count_fst_places (n : Nat) (count : Nat → Nat) (i : Nat) :
    ((places n count).map Prod.fst).count i = if i < n then count i else 0 := by
  induction n with
  | zero => simp [places]
  | succ n ih =>
    have hrow : ((List.range (count n)).map fun k => (n, k)).map Prod.fst =
        List.replicate (count n) n := by
      simp [Function.comp_def, List.map_const']
    rw [places_succ, List.map_append, List.count_append, ih, hrow, List.count_replicate]
    rcases Nat.lt_trichotomy i n with h | rfl | h
    · rw [if_pos h, if_pos (Nat.lt_succ_of_lt h), if_neg (by simp; omega), Nat.add_zero]
    · rw [if_neg (Nat.lt_irrefl i), if_pos (Nat.lt_succ_self i), if_pos (by simp), Nat.zero_add]
    · rw [if_neg (Nat.not_lt.2 h.le), if_neg (Nat.not_lt.2 h), if_neg (by simp; omega)]

end Vllm.Ragged
