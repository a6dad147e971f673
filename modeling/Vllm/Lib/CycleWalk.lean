import Mathlib.Data.List.Zip
import Mathlib.GroupTheory.Perm.Support
import Vllm.Lib.Dict

/-! Permuting items in place by following the cycles of their destinations: a walk swaps the item
at its start with the one at that item's destination until the item that belongs to the start has
come there. What is at a place is given by a permutation, `cur y` being where it was before, and a
map says of the places nothing has happened to where their items belong. -/

universe u

namespace Vllm.CycleWalk

variable {κ : Type u} {δ cur : Equiv.Perm κ} {m : κ → κ} {started : List κ} {src dst : κ}

def Settled (δ cur : Equiv.Perm κ) (y : κ) : Prop := δ (cur y) = y

def Reached (δ cur : Equiv.Perm κ) (m : κ → κ) (started : List κ) (y : κ) : Prop :=
  (cur y = y ∧ m y = δ y ∧ y ∉ started) ∨ (Settled δ cur y ∧ (m y = y ∨ y ∈ started))

structure Walking (δ cur : Equiv.Perm κ) (m : κ → κ) (started : List κ) (src dst : κ) : Prop where
  next : dst = δ (cur src)
  others : ∀ y ≠ src, Reached δ cur m started y

theorem Walking.not_settled (h : Walking δ cur m started src dst) (hne : src ≠ dst) :
    ¬ Settled δ cur dst := by
  intro hset
  have heq : cur dst = cur src := δ.injective (hset.trans h.next)
  exact hne (cur.injective heq).symm

theorem Walking.untouched (h : Walking δ cur m started src dst) (hne : src ≠ dst) :
    cur dst = dst ∧ m dst = δ dst := by
  rcases h.others dst hne.symm with ⟨hcur, hmap, -⟩ | ⟨hset, -⟩
  · exact ⟨hcur, hmap⟩
  · exact absurd hset (h.not_settled hne)

section Step

variable [DecidableEq κ]

theorem swap_settled (h : Walking δ cur m started src dst) :
    Settled δ (cur * Equiv.swap src dst) dst := by
  rw [Settled, Equiv.Perm.mul_apply, Equiv.swap_apply_right]
  exact h.next.symm

theorem swap_other {y : κ} (hsrc : y ≠ src) (hdst : y ≠ dst) :
    (cur * Equiv.swap src dst) y = cur y := by
  rw [Equiv.Perm.mul_apply, Equiv.swap_apply_of_ne_of_ne hsrc hdst]

theorem Walking.step (h : Walking δ cur m started src dst) (hne : src ≠ dst) :
    Walking δ (cur * Equiv.swap src dst) (Function.update m dst dst) started src (m dst) := by
  obtain ⟨hcur, hmap⟩ := h.untouched hne
  constructor
  case next =>
    rw [Equiv.Perm.mul_apply, Equiv.swap_apply_left, hcur]
    exact hmap
  case others =>
    intro y hy
    by_cases hyd : y = dst
    · rw [hyd]
      exact .inr ⟨swap_settled h, .inl (Function.update_self ..)⟩
    · unfold Reached Settled
      rw [swap_other hy hyd, Function.update_of_ne hyd]
      exact h.others y hy

instance (y : κ) : Decidable (Settled δ cur y) := inferInstanceAs (Decidable (_ = _))

def unsettled (δ cur : Equiv.Perm κ) (s : Finset κ) : Finset κ :=
  s.filter fun y => ¬ Settled δ cur y

theorem Walking.card_lt (h : Walking δ cur m started src dst) (hne : src ≠ dst) {s : Finset κ}
    (hdst : dst ∈ s) :
    (unsettled δ (cur * Equiv.swap src dst) s).card < (unsettled δ cur s).card := by
  have hsrc : ¬ Settled δ cur src := fun hsrc => hne (hsrc.symm.trans h.next.symm)
  refine Finset.card_lt_card ((Finset.ssubset_iff_of_subset ?_).mpr ⟨dst, ?_, ?_⟩)
  · intro y hy
    obtain ⟨hys, hy⟩ := Finset.mem_filter.mp hy
    refine Finset.mem_filter.mpr ⟨hys, ?_⟩
    by_cases hyd : y = dst
    · rw [hyd] at hy
      exact absurd (swap_settled h) hy
    · by_cases hysrc : y = src
      · exact hysrc ▸ hsrc
      · rw [Settled, ← swap_other hysrc hyd]
        exact hy
  · exact Finset.mem_filter.mpr ⟨hdst, h.not_settled hne⟩
  · exact fun hmem => (Finset.mem_filter.mp hmem).2 (swap_settled h)

end Step

def Between (δ cur : Equiv.Perm κ) (m : κ → κ) (started : List κ) : Prop :=
  ∀ y, Reached δ cur m started y

theorem between_start (hm : ∀ y, m y = δ y) : Between δ 1 m [] :=
  fun y => .inl ⟨rfl, hm y, List.not_mem_nil⟩

theorem Between.walking (h : Between δ cur m started) (hsrc : src ∉ started) :
    Walking δ cur m started src (m src) ∨ (m src = src ∧ Settled δ cur src) := by
  rcases h src with ⟨hcur, hmap, -⟩ | ⟨hset, hmap | hmem⟩
  · exact .inl ⟨by rw [hcur, hmap], fun y _ => h y⟩
  · exact .inr ⟨hmap, hset⟩
  · exact absurd hmem hsrc

theorem Walking.between (h : Walking δ cur m started src src) :
    Between δ cur m (started ++ [src]) := by
  intro y
  by_cases hy : y = src
  · rw [hy]
    exact .inr ⟨h.next.symm, .inr (by simp)⟩
  · rcases h.others y hy with ⟨hcur, hmap, hnot⟩ | ⟨hset, hmap⟩
    · exact .inl ⟨hcur, hmap, by simp [hnot, hy]⟩
    · exact .inr ⟨hset, hmap.imp_right (List.mem_append_left _)⟩

theorem Between.skip (h : Between δ cur m started) (hset : Settled δ cur src) :
    Between δ cur m (started ++ [src]) := by
  intro y
  by_cases hy : y = src
  · rw [hy]
    exact .inr ⟨hset, .inr (by simp)⟩
  · rcases h y with ⟨hcur, hmap, hnot⟩ | ⟨hset, hmap⟩
    · exact .inl ⟨hcur, hmap, by simp [hnot, hy]⟩
    · exact .inr ⟨hset, hmap.imp_right (List.mem_append_left _)⟩

theorem Between.settled (h : Between δ cur m started) (hall : ∀ y, δ y ≠ y → y ∈ started)
    (y : κ) : Settled δ cur y := by
  rcases h y with ⟨hcur, -, hnot⟩ | ⟨hset, -⟩
  · rw [Settled, hcur]
    by_contra hne
    exact hnot (hall y hne)
  · exact hset

section Destinations

variable [DecidableEq κ] {xs ys : List κ} {x y : κ}

def destinations (xs ys : List κ) : Dict κ κ :=
  (xs.zip ys).foldl (fun d e => d.set e.1 e.2) .empty

theorem items_destinations (hx : xs.Nodup) (hlen : xs.length = ys.length) :
    (destinations xs ys).items = xs.zip ys := by
  refine Dict.items_foldl_set ?_
  rw [List.map_fst_zip (Nat.le_of_eq hlen)]
  exact hx

theorem keys_destinations (hx : xs.Nodup) (hlen : xs.length = ys.length) :
    (destinations xs ys).keys = xs := by
  rw [Dict.keys, items_destinations hx hlen, List.map_fst_zip (Nat.le_of_eq hlen)]

theorem getD_destinations (hx : xs.Nodup) (hlen : xs.length = ys.length)
    (h : (x, y) ∈ xs.zip ys) : (destinations xs ys).getD x x = y := by
  rw [Dict.getD, Dict.get?_eq_some.mpr (by rw [items_destinations hx hlen]; exact h)]
  rfl

theorem getD_destinations_of_notMem (hx : xs.Nodup) (hlen : xs.length = ys.length) (h : x ∉ xs) :
    (destinations xs ys).getD x x = x := by
  rw [Dict.getD, Dict.get?_eq_none.mpr (by rw [keys_destinations hx hlen]; exact h)]
  rfl

omit [DecidableEq κ] in
theorem exists_mem_zip (hlen : xs.length = ys.length) (h : x ∈ xs) : ∃ y, (x, y) ∈ xs.zip ys := by
  rw [← List.map_fst_zip (Nat.le_of_eq hlen)] at h
  obtain ⟨⟨x', y⟩, hmem, rfl⟩ := List.mem_map.mp h
  exact ⟨y, hmem⟩

omit [DecidableEq κ] in
theorem mem_zip_swap (h : (x, y) ∈ xs.zip ys) : (y, x) ∈ ys.zip xs := by
  rw [← List.zip_swap]
  exact List.mem_map.mpr ⟨(x, y), h, rfl⟩

theorem destinations_inverse (hx : xs.Nodup) (h : xs.Perm ys) (x : κ) :
    (destinations ys xs).getD ((destinations xs ys).getD x x) ((destinations xs ys).getD x x) =
      x := by
  have hlen := h.length_eq
  have hy := h.nodup_iff.mp hx
  by_cases hmem : x ∈ xs
  · obtain ⟨y, hxy⟩ := exists_mem_zip hlen hmem
    rw [getD_destinations hx hlen hxy, getD_destinations hy hlen.symm (mem_zip_swap hxy)]
  · rw [getD_destinations_of_notMem hx hlen hmem,
      getD_destinations_of_notMem hy hlen.symm fun hmem' => hmem (h.mem_iff.mpr hmem')]

def relocation (hx : xs.Nodup) (h : xs.Perm ys) : Equiv.Perm κ where
  toFun x := (destinations xs ys).getD x x
  invFun y := (destinations ys xs).getD y y
  left_inv := destinations_inverse hx h
  right_inv := destinations_inverse (h.nodup_iff.mp hx) h.symm

theorem relocation_mem (hx : xs.Nodup) (h : xs.Perm ys) : relocation hx h x ∈ ys ↔ x ∈ ys := by
  have hlen := h.length_eq
  by_cases hmem : x ∈ xs
  · obtain ⟨y, hxy⟩ := exists_mem_zip hlen hmem
    have hval : relocation hx h x = y := getD_destinations hx hlen hxy
    rw [hval]
    exact iff_of_true (List.of_mem_zip hxy).2 (h.mem_iff.mp hmem)
  · have hval : relocation hx h x = x := getD_destinations_of_notMem hx hlen hmem
    rw [hval]

end Destinations

end Vllm.CycleWalk
