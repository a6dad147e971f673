import Mathlib.Algebra.GroupWithZero.Nat
import Mathlib.Algebra.Ring.Int.Defs
import Vllm.Lib.Numpy
import Vllm.Lib.Segments

namespace Vllm.Numpy

open Segments

def remainder (a b : Int) : Int := if b = 0 then 0 else a.fmod b

def floorDivide (a b : Int) : Int := if b = 0 then 0 else a.fdiv b

def arange (n : Int) : List Int := (List.range n.toNat).map fun i : Nat => (i : Int)

def cumsum (start : Int) : List Int → List Int
  | [] => []
  | x :: xs => (start + x) :: cumsum (start + x) xs

variable {α β γ : Type}

def repeats (xs : List α) (counts : List Int) : Result (List α) :=
  if counts.any (· < 0) then .error (.valueError "repeats may not contain negative values.")
  else .ok (repeatEach xs (counts.map Int.toNat))

def compress (mask : List Bool) (xs : List α) : List α :=
  ((mask.zip xs).filter Prod.fst).map Prod.snd

def putMask : List α → List Bool → List α → Result (List α)
  | x :: xs, false :: mask, values => (x :: ·) <$> putMask xs mask values
  | _ :: xs, true :: mask, value :: values => (value :: ·) <$> putMask xs mask values
  | [], [], [] => .ok []
  | _, _, _ => .error (.valueError "cannot assign input values to the output values")

def amax : List Int → Result Int
  | [] => .error (.valueError "zero-size array to reduction operation maximum which has no identity")
  | x :: xs => .ok (xs.foldl max x)

theorem putMask_map (l : List α) (f g : α → β) (p : α → Bool) :
    putMask (l.map f) (l.map p) ((l.filter p).map g) =
      .ok (l.map fun a => if p a then g a else f a) := by
  induction l with
  | nil => rfl
  | cons a l ih =>
    cases hp : p a with
    | false =>
      rw [List.filter_cons_of_neg (by simp [hp]), List.map_cons, List.map_cons, hp, putMask, ih,
        List.map_cons, hp]
      rfl
    | true =>
      rw [List.filter_cons_of_pos hp, List.map_cons, List.map_cons, List.map_cons, hp, putMask, ih,
        List.map_cons, hp]
      rfl

theorem compress_map (l : List α) (g : α → β) (p : α → Bool) :
    compress (l.map p) (l.map g) = (l.filter p).map g := by
  induction l with
  | nil => rfl
  | cons a l ih =>
    rw [compress, List.map_cons, List.map_cons, List.zip_cons_cons, List.filter_cons, List.filter_cons]
    cases p a with
    | false => exact ih
    | true => exact congrArg (g a :: ·) ih

theorem cumsum_natCast (start : Nat) (counts : List Nat) :
    cumsum start (counts.map fun n : Nat => (n : Int)) =
      (Segments.cumsum start counts).map fun n : Nat => (n : Int) := by
  induction counts generalizing start with
  | nil => rfl
  | cons k counts ih =>
    have hstep := ih (start + k)
    rw [Int.natCast_add] at hstep
    exact congrArg (((start : Int) + k) :: ·) hstep

theorem repeats_map (l : List α) (f : α → β) (n : α → Nat) :
    repeats (l.map f) (l.map fun a => (n a : Int)) =
      .ok (l.flatMap fun a => List.replicate (n a) (f a)) := by
  have hnone : (l.map fun a => (n a : Int)).any (· < 0) = false := by
    rw [List.any_eq_false]
    intro x hx
    obtain ⟨a, -, rfl⟩ := List.mem_map.1 hx
    simp
  rw [repeats, hnone, if_neg Bool.false_ne_true, List.map_map]
  exact congrArg Except.ok (repeatEach_map l f n)

section Segments

variable {l : List α} {n : α → Nat}

theorem flatMap_replicate (l : List α) (f : α → β) (n : α → Nat) :
    (l.flatMap fun a => List.replicate (n a) (f a)) = (labels n l).map fun p => f p.1 := by
  rw [labels, List.map_flatMap]
  refine List.flatMap_congr fun a _ => ?_
  show _ = List.map (fun p => f p.1) (List.map (a, ·) (List.range (n a)))
  have hconst : (List.range (n a)).map (fun _ => f a) = List.replicate (n a) (f a) := by
    rw [List.map_const', List.length_range]
  rw [List.map_map, ← hconst]
  rfl

theorem arange_sub_offsets (l : List α) (n : α → Nat) :
    List.zipWith (· - ·) (arange (l.map n).sum)
        ((offsets n 0 l).flatMap fun p => List.replicate (n p.1) (p.2 : Int)) =
      (labels n l).map fun p => (p.2 : Int) := by
  have hrange : arange (l.map n).sum =
      (offsets n 0 l).flatMap fun p => (List.range (n p.1)).map fun i => ((p.2 + i : Nat) : Int) := by
    rw [arange, Int.toNat_natCast, List.range_eq_range', range_sum, List.map_flatMap]
    refine List.flatMap_congr fun p _ => ?_
    rw [List.map_map]
    rfl
  have hlen : ∀ p ∈ offsets n 0 l, ((List.range (n p.1)).map fun i => ((p.2 + i : Nat) : Int)).length =
      (List.replicate (n p.1) (p.2 : Int)).length := by
    intro p _
    rw [List.length_map, List.length_range, List.length_replicate]
  rw [hrange, zipWith_flatMap hlen, labels, List.map_flatMap, flatMap_eq_flatMap_offsets n 0]
  refine List.flatMap_congr fun p _ => ?_
  refine List.ext_getElem? fun i => ?_
  rw [List.getElem?_zipWith, List.getElem?_map, List.getElem?_map, List.getElem?_map,
    List.getElem?_replicate]
  by_cases hi : i < n p.1
  · rw [if_pos hi, List.getElem?_range hi]
    show some (((p.2 + i : Nat) : Int) - p.2) = some (i : Int)
    congr 1
    omega
  · rw [if_neg hi, List.getElem?_eq_none (by simpa using hi)]
    rfl

theorem filter_labels_zero (hn : ∀ a ∈ l, 0 < n a) :
    (labels n l).filter (fun p => decide ((p.2 : Int) = 0)) = l.map (·, 0) := by
  induction l with
  | nil => rfl
  | cons a l ih =>
    obtain ⟨ha, hn⟩ := List.forall_mem_cons.1 hn
    obtain ⟨k, hk⟩ := Nat.exists_eq_succ_of_ne_zero (Nat.ne_zero_of_lt ha)
    rw [labels_cons, List.filter_append, ih hn, hk, List.range_succ_eq_map, List.map_cons,
      List.filter_cons_of_pos rfl, List.filter_eq_nil_iff.2]
    · rfl
    · intro p hp
      obtain ⟨i, hi, rfl⟩ := List.mem_map.1 hp
      obtain ⟨i, -, rfl⟩ := List.mem_map.1 hi
      exact mt of_decide_eq_true (by omega)

theorem put_last (x : β) (last : α → β) (hn : ∀ a ∈ l, 0 < n a) (done : List β) :
    put (done ++ List.replicate (l.map n).sum x)
        ((offsets n done.length l).map fun p => (((p.2 + n p.1 : Nat) : Int) - 1, last p.1)) =
      .ok (done ++ (labels n l).map fun p => if p.2 + 1 = n p.1 then last p.1 else x) := by
  induction l generalizing done with
  | nil =>
    rw [List.map_nil, List.sum_nil]
    rfl
  | cons a l ih =>
    obtain ⟨ha, hn⟩ := List.forall_mem_cons.1 hn
    obtain ⟨k, hk⟩ := Nat.exists_eq_succ_of_ne_zero (Nat.ne_zero_of_lt ha)
    have hsplit : (List.range (n a)).map (fun i => if i + 1 = n a then last a else x) =
        List.replicate k x ++ [last a] := by
      rw [hk, List.range_succ, List.map_append, List.map_singleton, if_pos rfl]
      congr 1
      rw [List.eq_replicate_iff]
      refine ⟨by simp, fun y hy => ?_⟩
      obtain ⟨i, hi, rfl⟩ := List.mem_map.1 hy
      exact if_neg (by have := List.mem_range.1 hi; omega)
    have hplace : ((done.length + n a : Nat) : Int) - 1 = ((done.length + k : Nat) : Int) := by
      omega
    have hset : (done ++ List.replicate (n a + (l.map n).sum) x).set (done.length + k) (last a) =
        (done ++ (List.replicate k x ++ [last a])) ++ List.replicate (l.map n).sum x := by
      rw [hk, List.set_append_right _ _ (Nat.le_add_right _ _), Nat.add_sub_cancel_left,
        List.replicate_add, List.replicate_succ', List.append_assoc, List.append_assoc,
        List.set_append_right _ _ (by simp), List.length_replicate, Nat.sub_self]
      simp
    have hstep := ih hn (done ++ (List.replicate k x ++ [last a]))
    have hlen : (done ++ (List.replicate k x ++ [last a])).length = done.length + n a := by
      rw [List.length_append, List.length_append, List.length_replicate, List.length_singleton, hk]
    rw [hlen] at hstep
    have hlt : done.length + k < (done ++ List.replicate (n a + (l.map n).sum) x).length := by
      rw [List.length_append, List.length_replicate]
      omega
    rw [List.map_cons, List.sum_cons, offsets, List.map_cons, labels_cons, List.map_append,
      List.map_map, ← List.append_assoc]
    show (setItem _ (((done.length + n a : Nat) : Int) - 1) (last a) >>= fun l' => put l' _) = _
    rw [hplace, setItem_natCast _ hlt, hset, Result.ok_bind, hstep]
    exact congrArg (fun m => Except.ok (done ++ m ++ _)) hsplit.symm

theorem rows_flatMap {k : Nat} {f : α → List β} (h : ∀ a ∈ l, (f a).length = k) :
    rows l.length k (l.flatMap f) = l.map f := by
  induction l with
  | nil => rfl
  | cons a l ih =>
    obtain ⟨ha, hl⟩ := List.forall_mem_cons.1 h
    rw [List.length_cons, rows, List.flatMap_cons, List.take_left' ha, List.drop_left' ha, ih hl]
    rfl

end Segments

end Vllm.Numpy
