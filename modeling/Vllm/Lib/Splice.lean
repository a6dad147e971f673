import Mathlib.Data.List.Basic
import Mathlib.Tactic.Common

universe u

namespace Vllm

/-- The positions from `start` to before `stop` make way for `content`. -/
structure Edit (α : Type u) where
  start : Nat
  stop : Nat
  content : List α

namespace Edit

variable {α : Type u}

/-- What follows from position `prev` on. -/
def splice (l : List α) : Nat → List (Edit α) → List α
  | prev, [] => l.drop prev
  | prev, e :: es => (l.take e.start).drop prev ++ e.content ++ splice l e.stop es

/-- No edit begins before the one before it ends. -/
def InOrder (l : List α) : Nat → List (Edit α) → Prop
  | prev, [] => prev ≤ l.length
  | prev, e :: es => prev ≤ e.start ∧ e.start ≤ e.stop ∧ InOrder l e.stop es

variable {l : List α} {prev : Nat} {es es' : List (Edit α)}

theorem InOrder.le_length (h : InOrder l prev es) : prev ≤ l.length := by
  induction es generalizing prev with
  | nil => exact h
  | cons e es ih => exact Nat.le_trans h.1 (Nat.le_trans h.2.1 (ih h.2.2))

theorem InOrder.of_pairwise (hprev : prev ≤ l.length)
    (hes : ∀ e ∈ es, prev ≤ e.start ∧ e.start ≤ e.stop ∧ e.stop ≤ l.length)
    (hpair : es.Pairwise fun e e' => e.stop ≤ e'.start) : InOrder l prev es := by
  induction es generalizing prev with
  | nil => exact hprev
  | cons e es ih =>
    obtain ⟨⟨hstart, hstop, hlen⟩, hes⟩ := List.forall_mem_cons.1 hes
    obtain ⟨hnext, hpair⟩ := List.pairwise_cons.1 hpair
    exact ⟨hstart, hstop, ih hlen (fun e' he' => ⟨hnext e' he', (hes e' he').2⟩) hpair⟩

def endOf : Nat → List (Edit α) → Nat
  | prev, [] => prev
  | _, e :: es => endOf e.stop es

theorem endOf_append (prev : Nat) (es es' : List (Edit α)) :
    endOf prev (es ++ es') = endOf (endOf prev es) es' := by
  induction es generalizing prev with
  | nil => rfl
  | cons e es ih => exact ih e.stop

theorem InOrder.append (h : InOrder l prev es) (h' : InOrder l (endOf prev es) es') :
    InOrder l prev (es ++ es') := by
  induction es generalizing prev with
  | nil => exact h'
  | cons e es ih => exact ⟨h.1, h.2.1, ih h.2.2 h'⟩

theorem InOrder.le_endOf (h : InOrder l prev es) : prev ≤ endOf prev es := by
  induction es generalizing prev with
  | nil => exact Nat.le_refl prev
  | cons e es ih => exact Nat.le_trans (Nat.le_trans h.1 h.2.1) (ih h.2.2)

theorem InOrder.endOf_le (h : InOrder l prev es) : endOf prev es ≤ l.length := by
  induction es generalizing prev with
  | nil => exact h
  | cons e es ih => exact ih h.2.2

theorem InOrder.stop_le_endOf (h : InOrder l prev es) : ∀ e ∈ es, e.stop ≤ endOf prev es := by
  induction es generalizing prev with
  | nil => nofun
  | cons e es ih => exact List.forall_mem_cons.2 ⟨h.2.2.le_endOf, ih h.2.2⟩

instance : (prev : Nat) → (es : List (Edit α)) → Decidable (InOrder l prev es)
  | prev, [] => inferInstanceAs (Decidable (prev ≤ l.length))
  | prev, e :: es =>
    have := instDecidableInOrder e.stop es
    inferInstanceAs (Decidable (prev ≤ e.start ∧ e.start ≤ e.stop ∧ InOrder l e.stop es))

theorem splice_self (h : InOrder l prev es) (hself : ∀ e ∈ es, e.content = (l.take e.stop).drop e.start) :
    splice l prev es = l.drop prev := by
  induction es generalizing prev with
  | nil => rfl
  | cons e es ih =>
    obtain ⟨hstart, hstop, hrest⟩ := h
    obtain ⟨hcontent, hself⟩ := List.forall_mem_cons.1 hself
    have hlen := hrest.le_length
    rw [splice, ih hrest hself, hcontent]
    have hcut : (l.take e.stop).drop e.start ++ l.drop e.stop = l.drop e.start := by
      conv_rhs => rw [← List.take_append_drop e.stop l]
      rw [List.drop_append_of_le_length (by rw [List.length_take]; omega)]
    have hkeep : (l.take e.start).drop prev ++ l.drop e.start = l.drop prev := by
      conv_rhs => rw [← List.take_append_drop e.start l]
      rw [List.drop_append_of_le_length (by rw [List.length_take]; omega)]
    rw [List.append_assoc, hcut, hkeep]

/-- Where the contents are, when what follows from position `prev` on goes to position `base`. -/
def places : Nat → Nat → List (Edit α) → List Nat
  | _, _, [] => []
  | prev, base, e :: es =>
    (base + (e.start - prev)) :: places e.stop (base + (e.start - prev) + e.content.length) es

theorem length_places (prev base : Nat) (es : List (Edit α)) : (places prev base es).length = es.length := by
  induction es generalizing prev base with
  | nil => rfl
  | cons e es ih => exact congrArg Nat.succ (ih _ _)

theorem InOrder.length_kept {e : Edit α} (h : InOrder l prev (e :: es)) :
    ((l.take e.start).drop prev).length = e.start - prev := by
  have hlen : e.start ≤ l.length := Nat.le_trans h.2.1 h.2.2.le_length
  rw [List.length_drop, List.length_take, Nat.min_eq_left hlen]

end Edit

end Vllm
