import Mathlib.Data.List.Nodup
import Mathlib.Logic.Function.Basic

universe u

namespace Vllm

structure Links (ν : Type u) where
  prev : ν → Option ν
  next : ν → Option ν

namespace Links

variable {ν : Type u}

def flip (h : Links ν) : Links ν := ⟨h.next, h.prev⟩

def Chain (h : Links ν) : List ν → Prop
  | a :: b :: l => h.next a = some b ∧ h.prev b = some a ∧ Chain h (b :: l)
  | _ => True

def collect (step : ν → Option ν) : Nat → ν → List ν
  | 0, _ => []
  | rounds + 1, a =>
    match step a with
    | none => []
    | some b => a :: collect step rounds b

variable {h h' : Links ν} {a b : ν} {l xs ys : List ν}

theorem chain_append : h.Chain (xs ++ a :: ys) ↔ h.Chain (xs ++ [a]) ∧ h.Chain (a :: ys) := by
  induction xs with
  | nil => exact ⟨fun hc => ⟨trivial, hc⟩, And.right⟩
  | cons x xs ih =>
    cases xs with
    | nil =>
      constructor
      · exact fun hc => ⟨⟨hc.1, hc.2.1, trivial⟩, hc.2.2⟩
      · exact fun hc => ⟨hc.1.1, hc.1.2.1, hc.2⟩
    | cons y xs =>
      constructor
      · intro hc
        obtain ⟨hxs, hys⟩ := ih.1 hc.2.2
        exact ⟨⟨hc.1, hc.2.1, hxs⟩, hys⟩
      · rintro ⟨hc, hys⟩
        exact ⟨hc.1, hc.2.1, ih.2 ⟨hc.2.2, hys⟩⟩

theorem Chain.frame (hc : h.Chain l) (hnext : ∀ x ∈ l.dropLast, h'.next x = h.next x)
    (hprev : ∀ x ∈ l.tail, h'.prev x = h.prev x) : h'.Chain l := by
  induction l with
  | nil => trivial
  | cons x l ih =>
    cases l with
    | nil => trivial
    | cons y l =>
      obtain ⟨hx, hy, hrest⟩ := hc
      refine ⟨?_, ?_, ih hrest (fun z hz => ?_) fun z hz => ?_⟩
      · rw [hnext x List.mem_cons_self, hx]
      · rw [hprev y List.mem_cons_self, hy]
      · exact hnext z (List.mem_cons_of_mem x hz)
      · exact hprev z (List.mem_cons_of_mem y hz)

theorem Chain.next_eq (hc : h.Chain (a :: l)) (hne : l ≠ []) : h.next a = l.head? := by
  cases l with
  | nil => exact absurd rfl hne
  | cons b l => exact hc.1

theorem Chain.tail (hc : h.Chain (a :: l)) : h.Chain l := by
  cases l with
  | nil => trivial
  | cons b l => exact hc.2.2

theorem Chain.flip (hc : h.Chain l) : h.flip.Chain l.reverse := by
  induction l with
  | nil => trivial
  | cons x l ih =>
    cases l with
    | nil => trivial
    | cons y l =>
      obtain ⟨hx, hy, hrest⟩ := hc
      rw [List.reverse_cons, List.reverse_cons, List.append_assoc, List.singleton_append, chain_append,
        ← List.reverse_cons]
      exact ⟨ih hrest, hy, hx, trivial⟩

theorem Chain.collect {z : ν} {rounds : Nat} (hc : h.Chain (l ++ [z])) (hz : h.next z = none)
    (hrounds : l.length < rounds) (ha : (l ++ [z]).head? = some a) :
    collect h.next rounds a = l := by
  induction l generalizing a rounds with
  | nil =>
    obtain ⟨rounds, rfl⟩ := Nat.exists_eq_succ_of_ne_zero (Nat.ne_of_gt hrounds)
    cases ha
    rw [Links.collect, hz]
  | cons x l ih =>
    obtain ⟨rounds, rfl⟩ := Nat.exists_eq_succ_of_ne_zero (Nat.ne_of_gt (Nat.lt_of_le_of_lt
      (Nat.zero_le _) hrounds))
    cases ha
    have hlt : l.length < rounds := Nat.lt_of_succ_lt_succ hrounds
    cases l with
    | nil =>
      rw [Links.collect, hc.1]
      exact congrArg (List.cons x) (ih trivial hlt rfl)
    | cons y l =>
      rw [Links.collect, hc.1]
      exact congrArg (List.cons x) (ih hc.2.2 hlt rfl)

variable [DecidableEq ν]

def setPrev (h : Links ν) (a : ν) (b : Option ν) : Links ν :=
  { h with prev := Function.update h.prev a b }

def setNext (h : Links ν) (a : ν) (b : Option ν) : Links ν :=
  { h with next := Function.update h.next a b }

def link (h : Links ν) (a b : ν) : Links ν := (h.setNext a (some b)).setPrev b (some a)

def clear (h : Links ν) (a : ν) : Links ν := (h.setPrev a none).setNext a none

theorem next_link_of_ne (hab : b ≠ a) (c : ν) : (h.link a c).next b = h.next b :=
  Function.update_of_ne hab _ _

theorem prev_link_of_ne (hab : b ≠ a) (c : ν) : (h.link c a).prev b = h.prev b :=
  Function.update_of_ne hab _ _

theorem next_clear_of_ne (hab : b ≠ a) : (h.clear a).next b = h.next b := Function.update_of_ne hab _ _

theorem prev_clear_of_ne (hab : b ≠ a) : (h.clear a).prev b = h.prev b := Function.update_of_ne hab _ _

@[simp] theorem next_clear_self (h : Links ν) (a : ν) : (h.clear a).next a = none :=
  Function.update_self ..

@[simp] theorem prev_clear_self (h : Links ν) (a : ν) : (h.clear a).prev a = none :=
  Function.update_self ..

theorem Chain.link (hxs : h.Chain (xs ++ [a])) (hys : h.Chain (b :: ys))
    (hnodup : (xs ++ a :: b :: ys).Nodup) : (h.link a b).Chain (xs ++ a :: b :: ys) := by
  obtain ⟨-, hback, hcross⟩ := List.nodup_append.1 hnodup
  obtain ⟨ha, hback⟩ := List.nodup_cons.1 hback
  obtain ⟨hb, -⟩ := List.nodup_cons.1 hback
  rw [chain_append]
  refine ⟨hxs.frame (fun x hx => ?_) fun x hx => ?_, ?_, ?_, hys.frame (fun x hx => ?_) fun x hx => ?_⟩
  · rw [List.dropLast_concat] at hx
    exact next_link_of_ne (hcross x hx a List.mem_cons_self) b
  · have hx : x ∈ xs ++ [a] := List.mem_of_mem_tail hx
    refine prev_link_of_ne ?_ a
    rcases List.mem_append.1 hx with hx | hx
    · exact hcross x hx b (List.mem_cons_of_mem a List.mem_cons_self)
    · rw [List.mem_singleton.1 hx]
      exact fun hab => ha (hab ▸ List.mem_cons_self)
  · exact Function.update_self ..
  · exact Function.update_self ..
  · refine next_link_of_ne ?_ b
    rintro rfl
    exact ha (List.dropLast_subset _ hx)
  · refine prev_link_of_ne ?_ a
    rintro rfl
    exact hb hx

theorem Chain.clear (hc : h.Chain l) (ha : a ∉ l) : (h.clear a).Chain l := by
  refine hc.frame (fun x hx => next_clear_of_ne ?_) fun x hx => prev_clear_of_ne ?_
  · rintro rfl
    exact ha (List.dropLast_subset _ hx)
  · rintro rfl
    exact ha (List.mem_of_mem_tail hx)

end Links

end Vllm
