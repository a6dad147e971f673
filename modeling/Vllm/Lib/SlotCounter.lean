import Mathlib.Algebra.BigOperators.Group.List.Basic
import Mathlib.Algebra.GroupWithZero.Nat
import Mathlib.Algebra.Ring.Int.Defs
import Mathlib.Data.List.Basic

universe u

namespace Vllm

inductive SlotEvent (α : Type u)
  | take (a : α)
  | giveBack (a : α)

namespace SlotEvent

variable {α : Type u} (weight : α → Nat)

def count (n : Int) : SlotEvent α → Int
  | .take a => n - weight a
  | .giveBack a => n + weight a

def total (held : List α) : Int := (held.map fun a => (weight a : Int)).sum

@[simp] theorem total_cons (a : α) (held : List α) :
    total weight (a :: held) = weight a + total weight held := by
  simp [total]

variable [DecidableEq α]

def hold (held : List α) : SlotEvent α → List α
  | .take a => a :: held
  | .giveBack a => held.erase a

def Orderly : List α → List (SlotEvent α) → Prop
  | _, [] => True
  | held, .take a :: events => Orderly (a :: held) events
  | held, .giveBack a :: events => (a ∈ held ∨ weight a = 0) ∧ Orderly (held.erase a) events

instance decidableOrderly : ∀ (held : List α) (events : List (SlotEvent α)), Decidable (Orderly weight held events)
  | _, [] => isTrue trivial
  | held, .take a :: events => decidableOrderly (a :: held) events
  | held, .giveBack a :: events =>
    have := decidableOrderly (held.erase a) events
    inferInstanceAs (Decidable ((a ∈ held ∨ weight a = 0) ∧ Orderly weight (held.erase a) events))

variable {weight} {held : List α} {a : α}

theorem total_erase (h : a ∈ held) : total weight held = weight a + total weight (held.erase a) := by
  have hperm := (List.perm_cons_erase h).map fun a => (weight a : Int)
  rw [total, hperm.sum_eq, List.map_cons, List.sum_cons, total]

theorem count_add_total (n : Int) (held : List α) (e : SlotEvent α) :
    n + total weight held ≤ count weight n e + total weight (hold held e) ∧
      (count weight n e + total weight (hold held e) = n + total weight held ↔ Orderly weight held [e]) := by
  cases e with
  | take a =>
    have heq : count weight n (.take a) + total weight (hold held (.take a)) = n + total weight held := by
      rw [count, hold, total_cons]
      omega
    exact ⟨Int.le_of_eq heq.symm, iff_of_true heq trivial⟩
  | giveBack a =>
    rw [count, hold]
    by_cases hmem : a ∈ held
    · have heq : n + weight a + total weight (held.erase a) = n + total weight held := by
        rw [total_erase hmem]
        omega
      exact ⟨Int.le_of_eq heq.symm, iff_of_true heq ⟨.inl hmem, trivial⟩⟩
    · rw [List.erase_of_not_mem hmem]
      refine ⟨by omega, fun heq => ⟨.inr (by omega), trivial⟩, fun horderly => ?_⟩
      obtain ⟨hno | hzero, -⟩ := horderly
      · exact absurd hno hmem
      · omega

theorem orderly_cons {e : SlotEvent α} {events : List (SlotEvent α)} :
    Orderly weight held (e :: events) ↔ Orderly weight held [e] ∧ Orderly weight (hold held e) events := by
  cases e with
  | take a => exact ⟨fun h => ⟨trivial, h⟩, fun h => h.2⟩
  | giveBack a => exact ⟨fun h => ⟨⟨h.1, trivial⟩, h.2⟩, fun h => ⟨h.1.1, h.2⟩⟩

theorem orderly_append {events events' : List (SlotEvent α)} :
    Orderly weight held (events ++ events') ↔
      Orderly weight held events ∧ Orderly weight (events.foldl hold held) events' := by
  induction events generalizing held with
  | nil => exact ⟨fun h => ⟨trivial, h⟩, fun h => h.2⟩
  | cons e events ih => rw [List.cons_append, orderly_cons, ih, ← and_assoc, ← orderly_cons, List.foldl_cons]

theorem orderly_take (held l : List α) : Orderly weight held (l.map .take) := by
  induction l generalizing held with
  | nil => trivial
  | cons b l ih => exact ih (b :: held)

theorem mem_foldl_take {l : List α} (h : a ∈ held ∨ a ∈ l) : a ∈ (l.map .take).foldl hold held := by
  induction l generalizing held with
  | nil => exact h.resolve_right List.not_mem_nil
  | cons b l ih =>
    refine ih ?_
    rw [hold, List.mem_cons]
    rcases h with h | h
    · exact .inl (.inr h)
    · rcases List.mem_cons.mp h with rfl | h
      · exact .inl (.inl rfl)
      · exact .inr h

theorem orderly_giveBack {l : List α} (hl : l.Nodup) (h : ∀ a ∈ l, weight a ≠ 0 → a ∈ held) :
    Orderly weight held (l.map .giveBack) := by
  induction l generalizing held with
  | nil => trivial
  | cons b l ih =>
    obtain ⟨hb, hl⟩ := List.nodup_cons.mp hl
    refine ⟨(Decidable.em (weight b = 0)).symm.imp_left (h b List.mem_cons_self), ih hl fun a ha hne => ?_⟩
    have hab : a ≠ b := fun heq => hb (heq ▸ ha)
    exact (List.mem_erase_of_ne hab).mpr (h a (List.mem_cons_of_mem b ha) hne)

theorem mem_foldl_giveBack {l : List α} (h : a ∈ held) (hl : a ∉ l) : a ∈ (l.map .giveBack).foldl hold held := by
  induction l generalizing held with
  | nil => exact h
  | cons b l ih =>
    rw [List.mem_cons, not_or] at hl
    exact ih ((List.mem_erase_of_ne hl.1).mpr h) hl.2

theorem foldl_count_add_total (n : Int) (held : List α) (events : List (SlotEvent α)) :
    n + total weight held ≤ events.foldl (count weight) n + total weight (events.foldl hold held) ∧
      (events.foldl (count weight) n + total weight (events.foldl hold held) = n + total weight held ↔
        Orderly weight held events) := by
  induction events generalizing n held with
  | nil => exact ⟨Int.le_refl _, iff_of_true rfl trivial⟩
  | cons e events ih =>
    have hfirst : n + total weight held ≤ _ ∧ (_ ↔ Orderly weight held [e]) := count_add_total n held e
    obtain ⟨hle, heq⟩ := hfirst
    obtain ⟨hle', heq'⟩ := ih (count weight n e) (hold held e)
    rw [List.foldl_cons, List.foldl_cons]
    refine ⟨Int.le_trans hle hle', ?_⟩
    rw [orderly_cons, ← heq, ← heq']
    constructor
    · intro h
      exact ⟨by omega, by omega⟩
    · rintro ⟨h, h'⟩
      omega

end SlotEvent

end Vllm
