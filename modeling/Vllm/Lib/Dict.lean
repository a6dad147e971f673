import Mathlib.Algebra.BigOperators.Group.List.Basic
import Mathlib.Algebra.GroupWithZero.Nat
import Mathlib.Algebra.Ring.Int.Defs
import Mathlib.Data.List.Nodup

universe u v w

namespace Vllm

structure Dict (κ : Type u) (α : Type v) where
  items : List (κ × α)
  nodup : (items.map Prod.fst).Nodup
  deriving Repr

namespace Dict

variable {κ : Type u} {α : Type v} {β : Type w} [DecidableEq κ]

def empty : Dict κ α := ⟨[], List.nodup_nil⟩

instance : Inhabited (Dict κ α) := ⟨empty⟩

def keys (d : Dict κ α) : List κ := d.items.map Prod.fst

def values (d : Dict κ α) : List α := d.items.map Prod.snd

def size (d : Dict κ α) : Nat := d.items.length

def lookupIn (k : κ) : List (κ × α) → Option α
  | [] => none
  | (k', v) :: l => if k' = k then some v else lookupIn k l

def get? (d : Dict κ α) (k : κ) : Option α := lookupIn k d.items

def contains (d : Dict κ α) (k : κ) : Bool := (d.get? k).isSome

def getD (d : Dict κ α) (k : κ) (v : α) : α := (d.get? k).getD v

def setIn (k : κ) (v : α) : List (κ × α) → List (κ × α)
  | [] => [(k, v)]
  | (k', v') :: l => if k' = k then (k, v) :: l else (k', v') :: setIn k v l

theorem keys_setIn (k : κ) (v : α) (l : List (κ × α)) :
    (setIn k v l).map Prod.fst =
      if k ∈ l.map Prod.fst then l.map Prod.fst else l.map Prod.fst ++ [k] := by
  induction l with
  | nil => rfl
  | cons p l ih =>
    obtain ⟨k', v'⟩ := p
    by_cases hk : k' = k
    · subst hk
      simp [setIn]
    · have hk' : ¬ k = k' := fun h => hk h.symm
      simp only [setIn, if_neg hk, List.map_cons, ih, List.mem_cons, hk', false_or]
      split <;> rfl

def set (d : Dict κ α) (k : κ) (v : α) : Dict κ α where
  items := setIn k v d.items
  nodup := by
    rw [keys_setIn]
    split
    · exact d.nodup
    · rename_i hk
      exact List.nodup_append.mpr ⟨d.nodup, List.nodup_singleton k, by
        intro a ha b hb hab
        rw [List.mem_singleton.mp hb] at hab
        exact hk (hab ▸ ha)⟩

def eraseIn (k : κ) : List (κ × α) → List (κ × α)
  | [] => []
  | (k', v) :: l => if k' = k then l else (k', v) :: eraseIn k l

theorem eraseIn_sublist (k : κ) (l : List (κ × α)) : (eraseIn k l).Sublist l := by
  induction l with
  | nil => exact List.Sublist.refl _
  | cons p l ih =>
    obtain ⟨k', v⟩ := p
    unfold eraseIn
    split
    · exact List.sublist_cons_self _ _
    · exact ih.cons_cons _

def erase (d : Dict κ α) (k : κ) : Dict κ α where
  items := eraseIn k d.items
  nodup := d.nodup.sublist ((eraseIn_sublist k d.items).map Prod.fst)

def moveToEnd (d : Dict κ α) (k : κ) : Dict κ α :=
  match d.get? k with
  | some v => (d.erase k).set k v
  | none => d

def mapVals (f : κ → α → β) (d : Dict κ α) : Dict κ β where
  items := d.items.map fun p => (p.1, f p.1 p.2)
  nodup := by
    rw [List.map_map]
    exact d.nodup

def popFirst (d : Dict κ α) (n : Nat) : Dict κ α where
  items := d.items.drop n
  nodup := d.nodup.sublist ((List.drop_sublist n d.items).map Prod.fst)

theorem lookupIn_setIn (k k' : κ) (v : α) (l : List (κ × α)) :
    lookupIn k' (setIn k v l) = if k = k' then some v else lookupIn k' l := by
  induction l with
  | nil => rfl
  | cons p l ih =>
    obtain ⟨k₀, v₀⟩ := p
    by_cases hk : k₀ = k
    · subst hk
      simp only [setIn, if_true, lookupIn]
      split <;> rfl
    · simp only [setIn, if_neg hk, lookupIn, ih]
      by_cases hkk : k₀ = k'
      · subst hkk
        simp [Ne.symm hk]
      · simp [hkk]

theorem lookupIn_eq_none {k : κ} {l : List (κ × α)} :
    lookupIn k l = none ↔ k ∉ l.map Prod.fst := by
  induction l with
  | nil => simp [lookupIn]
  | cons p l ih =>
    obtain ⟨k', v⟩ := p
    by_cases hk : k' = k
    · simp [lookupIn, hk]
    · have hk' : ¬ k = k' := fun h => hk h.symm
      simp only [lookupIn, if_neg hk, ih, List.map_cons, List.mem_cons, hk', false_or]

theorem lookupIn_eraseIn (k k' : κ) {l : List (κ × α)} (hl : (l.map Prod.fst).Nodup) :
    lookupIn k' (eraseIn k l) = if k = k' then none else lookupIn k' l := by
  induction l with
  | nil => simp [lookupIn, eraseIn]
  | cons p l ih =>
    obtain ⟨k₀, v₀⟩ := p
    obtain ⟨hnot, hl⟩ := List.nodup_cons.mp hl
    by_cases hk : k₀ = k
    · subst hk
      simp only [eraseIn, if_true, lookupIn]
      by_cases hkk : k₀ = k'
      · subst hkk
        simp [lookupIn_eq_none.mpr hnot]
      · simp [hkk]
    · simp only [eraseIn, if_neg hk, lookupIn, ih hl]
      by_cases hkk : k₀ = k'
      · subst hkk
        simp [Ne.symm hk]
      · simp [hkk]

theorem lookupIn_eq_some {k : κ} {v : α} {l : List (κ × α)} (hl : (l.map Prod.fst).Nodup) :
    lookupIn k l = some v ↔ (k, v) ∈ l := by
  induction l with
  | nil => simp [lookupIn]
  | cons p l ih =>
    obtain ⟨k', v'⟩ := p
    obtain ⟨hnot, hl⟩ := List.nodup_cons.mp hl
    by_cases hk : k' = k
    · subst hk
      have hmem : (k', v) ∉ l := fun h => hnot (List.mem_map.mpr ⟨_, h, rfl⟩)
      simp [lookupIn, hmem, eq_comm]
    · have hk' : ¬ k = k' := fun h => hk h.symm
      simp [lookupIn, hk, ih hl, hk']

@[simp] theorem get?_empty (k : κ) : (empty : Dict κ α).get? k = none := rfl

@[simp] theorem get?_set (d : Dict κ α) (k k' : κ) (v : α) :
    (d.set k v).get? k' = if k = k' then some v else d.get? k' :=
  lookupIn_setIn k k' v d.items

@[simp] theorem get?_erase (d : Dict κ α) (k k' : κ) :
    (d.erase k).get? k' = if k = k' then none else d.get? k' :=
  lookupIn_eraseIn k k' d.nodup

theorem get?_of_erase {d : Dict κ α} {k k' : κ} {v : α} (h : (d.erase k).get? k' = some v) :
    d.get? k' = some v := by
  rw [get?_erase] at h
  split at h
  · cases h
  · exact h

theorem set_eq_self {d : Dict κ α} {k : κ} {v : α} (h : d.get? k = some v) : d.set k v = d := by
  have hitems : ∀ l : List (κ × α), lookupIn k l = some v → setIn k v l = l := by
    intro l
    induction l with
    | nil => exact fun h => by cases h
    | cons p l ih =>
      obtain ⟨k', v'⟩ := p
      intro h
      by_cases hk : k' = k
      · simp_all [lookupIn, setIn]
      · rw [lookupIn, if_neg hk] at h
        rw [setIn, if_neg hk, ih h]
  cases d
  exact congr_heq (congr_arg_heq _ (hitems _ h)) (proof_irrel_heq _ _)

theorem set_set (d : Dict κ α) (k : κ) (v v' : α) : (d.set k v).set k v' = d.set k v' := by
  have hitems : ∀ l : List (κ × α), setIn k v' (setIn k v l) = setIn k v' l := by
    intro l
    induction l with
    | nil => exact if_pos rfl
    | cons p l ih =>
      obtain ⟨k', v₀⟩ := p
      by_cases hk : k' = k
      · rw [setIn, if_pos hk, setIn, if_pos rfl, setIn, if_pos hk]
      · rw [setIn, if_neg hk, setIn, if_neg hk, ih, setIn, if_neg hk]
  exact (Dict.mk.injEq ..).mpr (hitems d.items)

theorem get?_eq_some {d : Dict κ α} {k : κ} {v : α} : d.get? k = some v ↔ (k, v) ∈ d.items :=
  lookupIn_eq_some d.nodup

theorem get?_eq_none {d : Dict κ α} {k : κ} : d.get? k = none ↔ k ∉ d.keys :=
  lookupIn_eq_none

theorem mem_keys {d : Dict κ α} {k : κ} : k ∈ d.keys ↔ ∃ v, d.get? k = some v := by
  rw [← not_iff_not, ← get?_eq_none, ← Option.isSome_iff_exists, Option.not_isSome_iff_eq_none]

theorem mem_values {d : Dict κ α} {v : α} : v ∈ d.values ↔ ∃ k, d.get? k = some v := by
  simp [values, get?_eq_some]

section Items

theorem items_set_new {d : Dict κ α} {k : κ} {v : α} (h : d.get? k = none) :
    (d.set k v).items = d.items ++ [(k, v)] := by
  have hitems : ∀ l : List (κ × α), lookupIn k l = none → setIn k v l = l ++ [(k, v)] := by
    intro l
    induction l with
    | nil => exact fun _ => rfl
    | cons p l ih =>
      obtain ⟨k', v'⟩ := p
      intro h
      by_cases hk : k' = k
      · rw [lookupIn, if_pos hk] at h
        cases h
      · rw [lookupIn, if_neg hk] at h
        rw [setIn, if_neg hk, ih h, List.cons_append]
  exact hitems _ h

theorem items_foldl_set {d : Dict κ α} {es : List (κ × α)}
    (hnew : (d.items.map Prod.fst ++ es.map Prod.fst).Nodup) :
    (es.foldl (fun d e => d.set e.1 e.2) d).items = d.items ++ es := by
  induction es generalizing d with
  | nil => rw [List.foldl_nil, List.append_nil]
  | cons e es ih =>
    have hnone : d.get? e.1 = none := by
      rw [get?_eq_none]
      intro hmem
      exact (List.nodup_append.mp hnew).2.2 _ hmem e.1 List.mem_cons_self rfl
    have hitems := items_set_new (v := e.2) hnone
    rw [List.foldl_cons, ih, hitems, List.append_assoc, List.singleton_append]
    rw [hitems, List.map_append, List.map_singleton, List.append_assoc]
    exact hnew

theorem map_items_set {d : Dict κ α} {k : κ} {v v' : α} {f : κ × α → β} (h : d.get? k = some v)
    (hf : f (k, v') = f (k, v)) : (d.set k v').items.map f = d.items.map f := by
  have hitems : ∀ l : List (κ × α), lookupIn k l = some v →
      (setIn k v' l).map f = l.map f := by
    intro l
    induction l with
    | nil => exact nofun
    | cons p l ih =>
      obtain ⟨k₀, v₀⟩ := p
      intro h
      by_cases hk : k₀ = k
      · rw [lookupIn, if_pos hk, Option.some_inj] at h
        rw [setIn, if_pos hk, List.map_cons, List.map_cons, hf, h, hk]
      · rw [lookupIn, if_neg hk] at h
        rw [setIn, if_neg hk, List.map_cons, List.map_cons, ih h]
  exact hitems _ h

theorem perm_erase {d : Dict κ α} {k : κ} {v : α} (h : d.get? k = some v) :
    d.items.Perm ((k, v) :: (d.erase k).items) := by
  have hitems : ∀ l : List (κ × α), lookupIn k l = some v → l.Perm ((k, v) :: eraseIn k l) := by
    intro l
    induction l with
    | nil => exact nofun
    | cons p l ih =>
      obtain ⟨k', v'⟩ := p
      intro h
      by_cases hk : k' = k
      · rw [lookupIn, if_pos hk, Option.some_inj] at h
        rw [eraseIn, if_pos hk, h, hk]
      · rw [lookupIn, if_neg hk] at h
        rw [eraseIn, if_neg hk]
        exact ((ih h).cons _).trans (List.Perm.swap _ _ _)
  exact hitems _ h

theorem perm_moveToEnd (d : Dict κ α) (k : κ) : (d.moveToEnd k).items.Perm d.items := by
  unfold moveToEnd
  split
  · rename_i v h
    have hnone : (d.erase k).get? k = none := by rw [get?_erase, if_pos rfl]
    rw [items_set_new hnone]
    exact (List.perm_append_singleton _ _).trans (perm_erase h).symm
  · exact .refl _

theorem mem_keys_moveToEnd {d : Dict κ α} {k k' : κ} : k' ∈ (d.moveToEnd k).keys ↔ k' ∈ d.keys :=
  ((d.perm_moveToEnd k).map Prod.fst).mem_iff

theorem mem_keys_set {d : Dict κ α} {k k' : κ} {v : α} :
    k' ∈ (d.set k v).keys ↔ k' = k ∨ k' ∈ d.keys := by
  rw [mem_keys, mem_keys, get?_set]
  split
  · rename_i hk
    exact iff_of_true ⟨v, rfl⟩ (.inl hk.symm)
  · rename_i hk
    rw [or_iff_right (Ne.symm hk)]

theorem mem_keys_erase {d : Dict κ α} {k k' : κ} : k' ∈ (d.erase k).keys ↔ k' ≠ k ∧ k' ∈ d.keys := by
  rw [mem_keys, mem_keys, get?_erase]
  split
  · rename_i hk
    exact iff_of_false nofun fun h => h.1 hk.symm
  · rename_i hk
    rw [and_iff_right (Ne.symm hk)]

omit [DecidableEq κ] in
theorem mem_keys_popFirst {d : Dict κ α} {n : Nat} {k : κ} (h : k ∈ (d.popFirst n).keys) :
    k ∈ d.keys :=
  ((List.drop_sublist n d.items).map Prod.fst).subset h

theorem contains_iff {d : Dict κ α} {k : κ} : d.contains k = true ↔ k ∈ d.keys := by
  rw [contains, Option.isSome_iff_exists, mem_keys]

theorem erase_eq_self {d : Dict κ α} {k : κ} (h : d.get? k = none) : d.erase k = d := by
  have hitems : ∀ l : List (κ × α), lookupIn k l = none → eraseIn k l = l := by
    intro l
    induction l with
    | nil => exact fun _ => rfl
    | cons p l ih =>
      obtain ⟨k', v'⟩ := p
      intro h
      by_cases hk : k' = k
      · rw [lookupIn, if_pos hk] at h
        cases h
      · rw [lookupIn, if_neg hk] at h
        rw [eraseIn, if_neg hk, ih h]
  cases d
  exact congr_heq (congr_arg_heq _ (hitems _ h)) (proof_irrel_heq _ _)

theorem get?_mapVals (f : κ → α → β) (d : Dict κ α) (k : κ) :
    (d.mapVals f).get? k = (d.get? k).map (f k) := by
  obtain ⟨l, hl⟩ := d
  show lookupIn k (l.map fun p => (p.1, f p.1 p.2)) = (lookupIn k l).map (f k)
  clear hl
  induction l with
  | nil => rfl
  | cons p l ih =>
    rw [List.map_cons, lookupIn, lookupIn, ih]
    split
    · rename_i hk
      rw [hk]
      rfl
    · rfl

end Items

def total (f : α → Nat) (d : Dict κ α) : Nat := (d.values.map f).sum

theorem total_set (f : α → Nat) (d : Dict κ α) (k : κ) (v : α) :
    total f (d.set k v) + ((d.get? k).map f).getD 0 = total f d + f v := by
  obtain ⟨l, hl⟩ := d
  unfold total values set get?
  simp only
  induction l with
  | nil => simp [setIn, lookupIn]
  | cons p l ih =>
    obtain ⟨k', v'⟩ := p
    have ih := ih (List.nodup_cons.mp hl).2
    by_cases hk : k' = k
    · simp [setIn, lookupIn, hk]
      omega
    · simp only [setIn, if_neg hk, lookupIn, List.map_cons, List.sum_cons]
      omega

theorem total_erase (f : α → Nat) (d : Dict κ α) (k : κ) :
    total f (d.erase k) + ((d.get? k).map f).getD 0 = total f d := by
  obtain ⟨l, hl⟩ := d
  unfold total values erase get?
  simp only
  induction l with
  | nil => simp [lookupIn, eraseIn]
  | cons p l ih =>
    obtain ⟨k', v'⟩ := p
    have ih := ih (List.nodup_cons.mp hl).2
    by_cases hk : k' = k
    · simp [eraseIn, lookupIn, hk]
      omega
    · simp only [eraseIn, if_neg hk, lookupIn, List.map_cons, List.sum_cons]
      omega

theorem le_total (f : α → Nat) {d : Dict κ α} {k : κ} {v : α} (h : d.get? k = some v) :
    f v ≤ total f d := by
  have := total_erase f d k
  rw [h, Option.map_some, Option.getD_some] at this
  omega

omit [DecidableEq κ] in
theorem size_eq_total (d : Dict κ α) : d.size = d.total fun _ => 1 := by
  simp [size, total, values, Function.comp_def]

theorem size_set (d : Dict κ α) (k : κ) (v : α) :
    (d.set k v).size + ((d.get? k).map fun _ => 1).getD 0 = d.size + 1 := by
  rw [size_eq_total, size_eq_total]
  exact total_set (fun _ => 1) d k v

theorem size_erase (d : Dict κ α) (k : κ) :
    (d.erase k).size + ((d.get? k).map fun _ => 1).getD 0 = d.size := by
  rw [size_eq_total, size_eq_total]
  exact total_erase (fun _ => 1) d k

omit [DecidableEq κ] in
theorem size_of_keys {d : Dict κ α} {l : List κ} (hl : l.Nodup) (h : ∀ k, k ∈ d.keys ↔ k ∈ l) :
    d.size = l.length := by
  rw [← ((List.perm_ext_iff_of_nodup d.nodup hl).mpr h).length_eq, List.length_map]
  rfl

theorem keys_set (d : Dict κ α) (k : κ) (v : α) :
    (d.set k v).keys = if k ∈ d.keys then d.keys else d.keys ++ [k] :=
  keys_setIn k v d.items

/-- The sum of `f` over the keys. -/
def weight (f : κ → Nat) (d : Dict κ α) : Nat := (d.keys.map f).sum

theorem weight_set_old (f : κ → Nat) {d : Dict κ α} {k : κ} {v v' : α} (h : d.get? k = some v) :
    weight f (d.set k v') = weight f d := by
  rw [weight, keys_set, if_pos (mem_keys.mpr ⟨v, h⟩), weight]

theorem weight_set_new (f : κ → Nat) {d : Dict κ α} {k : κ} {v : α} (h : d.get? k = none) :
    weight f (d.set k v) = weight f d + f k := by
  rw [weight, keys_set, if_neg (get?_eq_none.mp h), weight, List.map_append, List.sum_append]
  rfl

theorem weight_erase (f : κ → Nat) {d : Dict κ α} {k : κ} {v : α} (h : d.get? k = some v) :
    weight f (d.erase k) + f k = weight f d := by
  have hperm := ((perm_erase h).map Prod.fst).map f
  rw [weight, weight, keys, keys, hperm.sum_eq, List.map_cons, List.map_cons, List.sum_cons, Nat.add_comm]

theorem sum_values_erase {d : Dict κ Int} {k : κ} {v : Int} (h : d.get? k = some v) :
    (d.erase k).values.sum + v = d.values.sum := by
  have hperm := (perm_erase h).map Prod.snd
  rw [values, values, hperm.sum_eq, List.map_cons, List.sum_cons, Int.add_comm]

theorem sum_values_set_new {d : Dict κ Int} {k : κ} {v : Int} (h : d.get? k = none) :
    (d.set k v).values.sum = d.values.sum + v := by
  rw [values, items_set_new h, List.map_append, List.sum_append, values]
  exact congrArg _ (Int.add_zero v)

end Dict

end Vllm
