import Mathlib.Data.List.Basic
import Mathlib.Data.UInt

universe u v

namespace Vllm

structure PrefixCode (α : Type u) where
  code : α → List UInt8
  cancel : ∀ {a b : α} {r s : List UInt8}, code a ++ r = code b ++ s → a = b ∧ r = s

namespace PrefixCode

variable {α : Type u} {β : Type v}

theorem code_injective (c : PrefixCode α) : Function.Injective c.code := by
  intro a b h
  have happ : c.code a ++ [] = c.code b ++ [] := by rw [h]
  exact (c.cancel happ).1

def unary : Nat → List UInt8
  | 0 => [0]
  | n + 1 => 1 :: unary n

theorem unary_cancel {m n : Nat} {r s : List UInt8} (h : unary m ++ r = unary n ++ s) :
    m = n ∧ r = s := by
  induction m generalizing n with
  | zero =>
    cases n with
    | zero => exact ⟨rfl, by simpa [unary] using h⟩
    | succ n => simp [unary] at h
  | succ m ih =>
    cases n with
    | zero => simp [unary] at h
    | succ n =>
      obtain ⟨rfl, rfl⟩ := ih (by simpa [unary] using h)
      exact ⟨rfl, rfl⟩

def nat : PrefixCode Nat := ⟨unary, unary_cancel⟩

def comap (c : PrefixCode β) (f : α → β) (hf : Function.Injective f) : PrefixCode α where
  code a := c.code (f a)
  cancel h := ⟨hf (c.cancel h).1, (c.cancel h).2⟩

def prod (c : PrefixCode α) (d : PrefixCode β) : PrefixCode (α × β) where
  code x := c.code x.1 ++ d.code x.2
  cancel h := by
    rw [List.append_assoc, List.append_assoc] at h
    obtain ⟨h₁, h⟩ := c.cancel h
    obtain ⟨h₂, h⟩ := d.cancel h
    exact ⟨Prod.ext h₁ h₂, h⟩

def sumCode (c : PrefixCode α) (d : PrefixCode β) : α ⊕ β → List UInt8
  | .inl a => 0 :: c.code a
  | .inr b => 1 :: d.code b

def sum (c : PrefixCode α) (d : PrefixCode β) : PrefixCode (α ⊕ β) where
  code := sumCode c d
  cancel {x y} _ _ h := by
    cases x <;> cases y <;> simp only [sumCode, List.cons_append, List.cons.injEq] at h
    · exact ⟨congrArg _ (c.cancel h.2).1, (c.cancel h.2).2⟩
    · simp at h
    · simp at h
    · exact ⟨congrArg _ (d.cancel h.2).1, (d.cancel h.2).2⟩

def listCode (c : PrefixCode α) : List α → List UInt8
  | [] => [0]
  | a :: l => 1 :: (c.code a ++ listCode c l)

theorem listCode_cancel (c : PrefixCode α) {l l' : List α} {r s : List UInt8}
    (h : listCode c l ++ r = listCode c l' ++ s) : l = l' ∧ r = s := by
  induction l generalizing l' with
  | nil =>
    cases l' with
    | nil => exact ⟨rfl, by simpa [listCode] using h⟩
    | cons b l' => simp [listCode] at h
  | cons a l ih =>
    cases l' with
    | nil => simp [listCode] at h
    | cons b l' =>
      simp only [listCode, List.cons_append, List.cons.injEq, true_and, List.append_assoc] at h
      obtain ⟨rfl, hrest⟩ := c.cancel h
      obtain ⟨rfl, rfl⟩ := ih hrest
      exact ⟨rfl, rfl⟩

def list (c : PrefixCode α) : PrefixCode (List α) := ⟨listCode c, listCode_cancel c⟩

def option (c : PrefixCode α) : PrefixCode (Option α) :=
  c.list.comap Option.toList fun _ _ h => by
    rename_i a b
    cases a <;> cases b <;> simp_all

def byte : PrefixCode UInt8 := nat.comap UInt8.toNat fun _ _ h => UInt8.toNat_inj.mp h

def int : PrefixCode Int :=
  (nat.prod nat).comap (fun i => (i.toNat, (-i).toNat)) fun i j h => by
    simp only [Prod.mk.injEq] at h
    omega

def string : PrefixCode String :=
  (nat.comap Char.toNat fun _ _ h => Char.toNat_inj.mp h).list.comap String.toList
    fun _ _ h => String.toList_inj.mp h

end PrefixCode

end Vllm
