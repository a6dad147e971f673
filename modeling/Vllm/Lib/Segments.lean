import Mathlib.Algebra.GroupWithZero.Nat
import Mathlib.Algebra.Ring.Int.Defs
import Mathlib.Data.List.Flatten
import Mathlib.Data.List.Nodup
import Mathlib.Tactic.Common

universe u v

namespace Vllm.Segments

variable {α : Type u} {β : Type v} {l pre post : List α} {a : α} {n : α → Nat}
  {i r : Nat}

theorem getElem?_flatMap_offset {f : α → List β} (hl : l = pre ++ a :: post)
    (hi : i < (f a).length) :
    (l.flatMap f)[(pre.flatMap f).length + i]? = (f a)[i]? := by
  rw [hl, List.flatMap_append, List.getElem?_append_right (Nat.le_add_right _ _),
    Nat.add_sub_cancel_left, List.flatMap_cons, List.getElem?_append_left hi]

theorem getElem?_flatMap_const {f : α → List β} {w : Nat} (hf : ∀ a ∈ l, (f a).length = w) {i j : Nat} (hj : j < w) :
    (l.flatMap f)[i * w + j]? = l[i]?.bind fun a => (f a)[j]? := by
  induction l generalizing i with
  | nil => rfl
  | cons a l ih =>
    have ha : (f a).length = w := hf a List.mem_cons_self
    rw [List.flatMap_cons]
    cases i with
    | zero =>
      rw [Nat.zero_mul, Nat.zero_add, List.getElem?_append_left (by omega)]
      rfl
    | succ i =>
      have hplace : (i + 1) * w + j - w = i * w + j := by
        rw [Nat.succ_mul]
        omega
      have hge : w ≤ (i + 1) * w + j := by
        rw [Nat.succ_mul]
        omega
      rw [List.getElem?_append_right (by omega), ha, hplace, ih fun b hb => hf b (List.mem_cons_of_mem _ hb)]
      rfl

theorem eq_flatten_replicate_iff {l : List β} {count w : Nat} (hcount : 0 < count) (hlen : l.length = count * w) :
    (∃ block : List β, block.length = w ∧ l = (List.replicate count block).flatten) ↔
      ∀ i < count, ∀ j < w, l[i * w + j]? = l[(count - 1) * w + j]? := by
  have hplace : ∀ {block : List β}, block.length = w → ∀ i < count, ∀ j < w,
      (List.replicate count block).flatten[i * w + j]? = block[j]? := by
    intro block hblock i hi j hj
    have hconst := getElem?_flatMap_const (l := List.replicate count block) (f := id) (i := i)
      (fun a ha => (List.eq_of_mem_replicate ha).symm ▸ hblock) hj
    rw [List.flatMap_id, List.getElem?_replicate, if_pos hi] at hconst
    exact hconst
  constructor
  · rintro ⟨block, hblock, rfl⟩ i hi j hj
    rw [hplace hblock i hi j hj, hplace hblock (count - 1) (by omega) j hj]
  · intro h
    have hsplit : count * w = (count - 1) * w + w := by
      rw [← Nat.succ_mul]
      congr 1
      omega
    have hblock : (l.drop ((count - 1) * w)).length = w := by
      rw [List.length_drop]
      omega
    refine ⟨l.drop ((count - 1) * w), hblock, List.ext_getElem? fun k => ?_⟩
    rcases Nat.lt_or_ge k (count * w) with hk | hk
    · have hw : 0 < w := Nat.pos_of_ne_zero fun hzero => by simp [hzero] at hk
      have hkw : k = k / w * w + k % w := (Nat.div_add_mod' k w).symm
      have hq : k / w < count := (Nat.div_lt_iff_lt_mul hw).mpr hk
      have hr := Nat.mod_lt k hw
      rw [hkw, h _ hq _ hr, hplace hblock _ hq _ hr, List.getElem?_drop]
    · rw [List.getElem?_eq_none (by omega), List.getElem?_eq_none]
      rw [List.length_flatten, List.map_replicate, List.sum_replicate_nat, hblock]
      exact hk

theorem getElem?_flatMap_take {f : α → List β} {v : Nat} (hf : ∀ a ∈ l, (f a).length = n a)
    (ha : l[v]? = some a) (hi : i < n a) :
    (l.flatMap f)[((l.map n).take v).sum + i]? = (f a)[i]? := by
  obtain ⟨hv, rfl⟩ := List.getElem?_eq_some_iff.1 ha
  have hsplit : l = l.take v ++ l[v] :: l.drop (v + 1) := by
    rw [← List.drop_eq_getElem_cons hv, List.take_append_drop]
  have hpre : ((l.map n).take v).sum = ((l.take v).flatMap f).length := by
    rw [← List.map_take, List.length_flatMap]
    exact congrArg List.sum (List.map_congr_left fun a ha => (hf a (List.mem_of_mem_take ha)).symm)
  rw [hpre]
  exact getElem?_flatMap_offset hsplit (by rwa [hf _ (List.getElem_mem hv)])

def labels (n : α → Nat) (l : List α) : List (α × Nat) :=
  l.flatMap fun a => (List.range (n a)).map (a, ·)

theorem labels_cons (n : α → Nat) (a : α) (l : List α) :
    labels n (a :: l) = (List.range (n a)).map (a, ·) ++ labels n l := rfl

theorem labels_append (n : α → Nat) (l l' : List α) :
    labels n (l ++ l') = labels n l ++ labels n l' := List.flatMap_append

theorem length_labels (n : α → Nat) (l : List α) : (labels n l).length = (l.map n).sum := by
  simp [labels, List.length_flatMap]

theorem mem_labels {p : α × Nat} : p ∈ labels n l ↔ p.1 ∈ l ∧ p.2 < n p.1 := by
  rw [labels, List.mem_flatMap]
  constructor
  · rintro ⟨a, ha, hp⟩
    obtain ⟨i, hi, rfl⟩ := List.mem_map.1 hp
    exact ⟨ha, List.mem_range.1 hi⟩
  · rintro ⟨hmem, hlt⟩
    exact ⟨p.1, hmem, List.mem_map.2 ⟨p.2, List.mem_range.2 hlt, rfl⟩⟩

theorem nodup_labels (h : l.Nodup) : (labels n l).Nodup := by
  refine List.nodup_flatMap.2 ⟨fun a _ => ?_, h.imp fun hne => ?_⟩
  · exact List.nodup_range.map fun i j hij => congrArg Prod.snd hij
  · rintro p hp hp'
    obtain ⟨i, -, rfl⟩ := List.mem_map.1 hp
    obtain ⟨j, -, hj⟩ := List.mem_map.1 hp'
    exact hne (congrArg Prod.fst hj).symm

theorem getElem?_labels_offset (hl : l = pre ++ a :: post) (hi : i < n a) :
    (labels n l)[(labels n pre).length + i]? = some (a, i) := by
  rw [labels, labels, getElem?_flatMap_offset hl (by simpa using hi), List.getElem?_map,
    List.getElem?_range hi]
  rfl

theorem eq_offset_of_labels (h : l.Nodup) (hl : l = pre ++ a :: post)
    (hr : (labels n l)[r]? = some (a, i)) : r = (labels n pre).length + i := by
  have hi : i < n a := (mem_labels.1 (List.mem_of_getElem? hr)).2
  have hoffset := getElem?_labels_offset hl hi
  exact (List.getElem?_inj (List.getElem?_eq_some_iff.1 hr).1 (nodup_labels h)).1
    (hr.trans hoffset.symm)

def cumsum (start : Nat) : List Nat → List Nat
  | [] => []
  | k :: counts => (start + k) :: cumsum (start + k) counts

def repeatEach (xs : List β) (counts : List Nat) : List β :=
  (List.zipWith (fun x k => List.replicate k x) xs counts).flatten

def offsets (n : α → Nat) (start : Nat) : List α → List (α × Nat)
  | [] => []
  | a :: l => (a, start) :: offsets n (start + n a) l

variable {start : Nat}

theorem cumsum_map (n : α → Nat) (start : Nat) (l : List α) :
    cumsum start (l.map n) = (offsets n start l).map fun p => p.2 + n p.1 := by
  induction l generalizing start with
  | nil => rfl
  | cons a l ih => exact congrArg (_ :: ·) (ih (start + n a))

theorem map_fst_offsets (n : α → Nat) (start : Nat) (l : List α) :
    (offsets n start l).map Prod.fst = l := by
  induction l generalizing start with
  | nil => rfl
  | cons a l ih => exact congrArg (a :: ·) (ih (start + n a))

theorem map_eq_map_offsets (n : α → Nat) (start : Nat) (l : List α) (f : α → β) :
    l.map f = (offsets n start l).map fun p => f p.1 := by
  conv_lhs => rw [← map_fst_offsets n start l, List.map_map]
  rfl

theorem flatMap_eq_flatMap_offsets (n : α → Nat) (start : Nat) (l : List α) (f : α → List β) :
    l.flatMap f = (offsets n start l).flatMap fun p => f p.1 := by
  conv_lhs => rw [← map_fst_offsets n start l, List.flatMap_map]

theorem getLast?_cumsum {counts : List Nat} (h : counts ≠ []) :
    (cumsum start counts).getLast? = some (start + counts.sum) := by
  induction counts generalizing start with
  | nil => exact absurd rfl h
  | cons k counts ih =>
    rw [cumsum, List.sum_cons, ← Nat.add_assoc]
    cases counts with
    | nil => rfl
    | cons k' counts =>
      rw [List.getLast?_cons, ih nofun]
      rfl

theorem length_offsets (n : α → Nat) (start : Nat) (l : List α) :
    (offsets n start l).length = l.length := by
  rw [← List.length_map Prod.fst, map_fst_offsets]

theorem repeatEach_map {γ : Type*} (l : List γ) (f : γ → β) (n : γ → Nat) :
    repeatEach (l.map f) (l.map n) = l.flatMap fun a => List.replicate (n a) (f a) := by
  rw [repeatEach, List.zipWith_map, List.zipWith_self]
  rfl

theorem mem_offsets {p : α × Nat} (h : p ∈ offsets n start l) :
    ∃ pre post, l = pre ++ p.1 :: post ∧ p.2 = start + (pre.map n).sum := by
  induction l generalizing start with
  | nil => cases h
  | cons a l ih =>
    rcases List.mem_cons.1 h with rfl | h
    · exact ⟨[], l, rfl, rfl⟩
    · obtain ⟨pre, post, rfl, hp⟩ := ih h
      exact ⟨a :: pre, post, rfl, by rw [hp, List.map_cons, List.sum_cons, Nat.add_assoc]⟩

theorem getElem?_flatMap_of_mem_offsets {f : α → List β} {p : α × Nat}
    (hf : ∀ a ∈ l, (f a).length = n a) (h : p ∈ offsets n 0 l) (hi : i < n p.1) :
    (l.flatMap f)[p.2 + i]? = (f p.1)[i]? := by
  obtain ⟨pre, post, hl, hp⟩ := mem_offsets h
  have hpre : (pre.flatMap f).length = (pre.map n).sum := by
    rw [List.length_flatMap]
    refine congrArg List.sum (List.map_congr_left fun a ha => hf a ?_)
    rw [hl]
    exact List.mem_append_left _ ha
  have hlen : (f p.1).length = n p.1 :=
    hf p.1 (hl ▸ List.mem_append_right _ List.mem_cons_self)
  rw [hp, Nat.zero_add, ← hpre]
  exact getElem?_flatMap_offset hl (hlen ▸ hi)

theorem offsets_append (n : α → Nat) (start : Nat) (l l' : List α) :
    offsets n start (l ++ l') = offsets n start l ++ offsets n (start + (l.map n).sum) l' := by
  induction l generalizing start with
  | nil => rfl
  | cons a l ih =>
    rw [List.map_cons, List.sum_cons, ← Nat.add_assoc]
    exact congrArg ((a, start) :: ·) (ih (start + n a))

theorem offsets_zero {p : α × Nat} (h : (offsets n start l)[0]? = some p) : p.2 = start := by
  cases l with
  | nil => cases h
  | cons a l =>
    cases h
    rfl

theorem offsets_succ {p q : α × Nat} (hp : (offsets n start l)[i]? = some p)
    (hq : (offsets n start l)[i + 1]? = some q) : q.2 = p.2 + n p.1 := by
  induction l generalizing start i with
  | nil => cases hp
  | cons a l ih =>
    cases i with
    | zero =>
      cases hp
      exact offsets_zero hq
    | succ i => exact ih hp hq

theorem zipWith_flatMap {γ δ : Type*} {f : β → γ → δ} {g : α → List β} {h : α → List γ}
    (hlen : ∀ a ∈ l, (g a).length = (h a).length) :
    List.zipWith f (l.flatMap g) (l.flatMap h) = l.flatMap fun a => List.zipWith f (g a) (h a) := by
  induction l with
  | nil => rfl
  | cons a l ih =>
    obtain ⟨ha, hlen⟩ := List.forall_mem_cons.1 hlen
    rw [List.flatMap_cons, List.flatMap_cons, List.flatMap_cons, List.zipWith_append ha, ih hlen]

theorem zipWith_replicate_range (f : Nat → Nat → Nat) (x k : Nat) :
    List.zipWith f (List.replicate k x) (List.range k) = (List.range k).map (f x) := by
  refine List.ext_getElem? fun i => ?_
  rw [List.getElem?_zipWith, List.getElem?_map, List.getElem?_replicate]
  by_cases hi : i < k
  · rw [if_pos hi, List.getElem?_range hi]
    rfl
  · rw [if_neg hi, List.getElem?_eq_none (by simpa using hi)]
    rfl

theorem range_sum (n : α → Nat) (start : Nat) (l : List α) :
    List.range' start (l.map n).sum =
      (offsets n start l).flatMap fun p => (List.range (n p.1)).map (p.2 + ·) := by
  induction l generalizing start with
  | nil => rfl
  | cons a l ih =>
    rw [List.map_cons, List.sum_cons, ← List.range'_append_1, ih]
    show _ = (List.range (n a)).map (start + ·) ++ _
    rw [List.range_eq_range', List.map_add_range']
    rfl

theorem getElem?_cons_cumsum {counts : List Nat} (h : i ≤ counts.length) :
    (start :: cumsum start counts)[i]? = some (start + (counts.take i).sum) := by
  induction counts generalizing start i with
  | nil =>
    cases Nat.le_zero.1 h
    rfl
  | cons k counts ih =>
    cases i with
    | zero => rfl
    | succ i =>
      rw [List.take_succ_cons, List.sum_cons, ← Nat.add_assoc, List.getElem?_cons_succ]
      exact ih (Nat.le_of_succ_le_succ h)

theorem sum_take_add_le {counts : List Nat} {i' d : Nat} (hd : counts[i]? = some d) (h : i < i') :
    (counts.take i).sum + d ≤ (counts.take i').sum := by
  induction counts generalizing i i' with
  | nil => cases hd
  | cons k counts ih =>
    obtain ⟨i', rfl⟩ := Nat.exists_eq_succ_of_ne_zero (Nat.ne_zero_of_lt h)
    rw [List.take_succ_cons, List.sum_cons]
    cases i with
    | zero =>
      cases hd
      rw [List.take_zero, List.sum_nil, Nat.zero_add]
      exact Nat.le_add_right _ _
    | succ i =>
      rw [List.take_succ_cons, List.sum_cons, Nat.add_assoc]
      exact Nat.add_le_add_left (ih hd (Nat.lt_of_succ_lt_succ h)) k

theorem sum_take_add_inj {counts : List Nat} {i' d d' j j' : Nat} (hd : counts[i]? = some d)
    (hd' : counts[i']? = some d') (hj : j < d) (hj' : j' < d')
    (h : (counts.take i).sum + j = (counts.take i').sum + j') : i = i' ∧ j = j' := by
  have hlt : ∀ {i i' d j j' : Nat}, counts[i]? = some d → j < d →
      (counts.take i).sum + j = (counts.take i').sum + j' → i' ≤ i := by
    intro i i' d j j' hd hj h
    by_contra hlt
    have hle := sum_take_add_le hd (Nat.not_le.1 hlt)
    omega
  have hi : i = i' := Nat.le_antisymm (hlt hd' hj' h.symm) (hlt hd hj h)
  subst hi
  exact ⟨rfl, Nat.add_left_cancel h⟩

theorem le_foldl_max {counts : List Nat} (k : Nat) :
    k ≤ counts.foldl max k ∧ ∀ x ∈ counts, x ≤ counts.foldl max k := by
  induction counts generalizing k with
  | nil => exact ⟨Nat.le_refl k, nofun⟩
  | cons b counts ih =>
    obtain ⟨hle, hall⟩ := ih (max k b)
    refine ⟨Nat.le_trans (Nat.le_max_left k b) hle, fun x hx => ?_⟩
    rcases List.mem_cons.1 hx with rfl | hx
    · exact Nat.le_trans (Nat.le_max_right k x) hle
    · exact hall x hx

theorem foldl_max_le {counts : List Nat} {k m : Nat} (hk : k ≤ m) (h : ∀ x ∈ counts, x ≤ m) :
    counts.foldl max k ≤ m := by
  induction counts generalizing k with
  | nil => exact hk
  | cons b counts ih =>
    obtain ⟨hb, hl⟩ := List.forall_mem_cons.1 h
    exact ih (Nat.max_le.2 ⟨hk, hb⟩) hl

end Vllm.Segments
