import Vllm.Lib.Result
import Mathlib.Data.List.Basic
import Mathlib.Data.Int.Init

namespace Vllm.Py

def bound (n : Nat) (i : Int) : Nat :=
  if i < 0 then (i + n).toNat else min i.toNat n

def slice (l : List α) (start stop : Int) : List α :=
  (l.take (bound l.length stop)).drop (bound l.length start)

def sliceFrom (l : List α) (start : Int) : List α := l.drop (bound l.length start)

def sliceTo (l : List α) (stop : Int) : List α := l.take (bound l.length stop)

/-- The position `l[i]` denotes in a list of length `n`, if any. -/
def index (n : Nat) (i : Int) : Option Nat :=
  if 0 ≤ i then if i < n then some i.toNat else none
  else if -(n : Int) ≤ i then some (i + n).toNat
  else none

def cdiv (a b : Int) : Int := -(a.fdiv (-b))

def rangeLength (start stop step : Int) : Nat :=
  if 0 < step then ((stop - start + step - 1) / step).toNat else ((start - stop - step - 1) / -step).toNat

def range (start stop step : Int) : List Int :=
  (List.range (rangeLength start stop step)).map fun (k : Nat) => start + k * step

@[simp] theorem bound_natCast (n k : Nat) : bound n (k : Int) = min k n := by
  rw [bound, if_neg (by omega), Int.toNat_natCast]

@[simp] theorem sliceTo_natCast (l : List α) (k : Nat) : sliceTo l (k : Int) = l.take k := by
  rw [sliceTo, bound_natCast, List.take_eq_take_min]
  simp

@[simp] theorem sliceFrom_natCast (l : List α) (k : Nat) : sliceFrom l (k : Int) = l.drop k := by
  rw [sliceFrom, bound_natCast]
  rcases Nat.le_total k l.length with h | h
  · rw [Nat.min_eq_left h]
  · rw [Nat.min_eq_right h, List.drop_length, List.drop_eq_nil_of_le h]

theorem slice_natCast (l : List α) {i j : Nat} (hi : i ≤ l.length) :
    slice l (i : Int) (j : Int) = (l.drop i).take (j - i) := by
  rw [slice, bound_natCast, bound_natCast, Nat.min_eq_left hi, ← List.take_eq_take_min,
    List.drop_take]

theorem lt_rangeLength_iff {start stop step : Int} (hstep : 0 < step) (k : Nat) :
    k < rangeLength start stop step ↔ start + k * step < stop := by
  have hdiv := Int.le_ediv_iff_mul_le (a := (k : Int) + 1) (b := stop - start + step - 1) hstep
  rw [Int.add_mul, Int.one_mul] at hdiv
  rw [rangeLength, if_pos hstep, Int.lt_toNat]
  omega

theorem lt_rangeLength_iff_of_neg {start stop step : Int} (hstep : step < 0) (k : Nat) :
    k < rangeLength start stop step ↔ stop < start + k * step := by
  have hdiv := Int.le_ediv_iff_mul_le (a := (k : Int) + 1) (b := start - stop - step - 1)
    (show 0 < -step by omega)
  rw [Int.add_mul, Int.one_mul, Int.mul_neg] at hdiv
  rw [rangeLength, if_neg (by omega), Int.lt_toNat]
  omega

theorem mem_range {start stop step x : Int} :
    x ∈ range start stop step ↔ ∃ k < rangeLength start stop step, x = start + k * step := by
  simp only [range, List.mem_map, List.mem_range, eq_comm]

theorem mem_range_one {start stop x : Int} : x ∈ range start stop 1 ↔ start ≤ x ∧ x < stop := by
  rw [mem_range]
  constructor
  · rintro ⟨k, hk, rfl⟩
    have := (lt_rangeLength_iff Int.one_pos k).mp hk
    omega
  · rintro ⟨hle, hlt⟩
    refine ⟨(x - start).toNat, (lt_rangeLength_iff Int.one_pos _).mpr ?_, ?_⟩ <;> omega

theorem range_one_nil {start stop : Int} (h : stop ≤ start) : range start stop 1 = [] := by
  rw [List.eq_nil_iff_forall_not_mem]
  intro x hx
  have := mem_range_one.mp hx
  omega

theorem range_one_cons {start stop : Int} (h : start < stop) : range start stop 1 = start :: range (start + 1) stop 1 := by
  have hlen : rangeLength start stop 1 = rangeLength (start + 1) stop 1 + 1 := by
    rw [rangeLength, rangeLength, if_pos Int.one_pos, if_pos Int.one_pos]
    omega
  rw [range, hlen, List.range_succ_eq_map, List.map_cons, List.map_map, range]
  refine congrArg₂ List.cons (by simp) (List.map_congr_left fun k _ => ?_)
  rw [Function.comp_apply]
  omega

theorem range_zero_one (n : Nat) : range 0 n 1 = (List.range n).map fun (k : Nat) => (k : Int) := by
  have hlen : rangeLength 0 n 1 = n := by
    rw [rangeLength, if_pos Int.one_pos]
    omega
  rw [range, hlen]
  exact List.map_congr_left fun k _ => by omega

theorem pairwise_range_one (start stop : Int) : (range start stop 1).Pairwise (· < ·) := by
  refine List.pairwise_map.mpr (List.pairwise_lt_range.imp fun {i j} hlt => ?_)
  omega

theorem cdiv_eq (a : Int) {b : Int} (hb : 0 ≤ b) : cdiv a b = -(-a / b) := by
  rw [cdiv, ← Int.neg_fdiv_neg, Int.neg_neg, Int.fdiv_eq_ediv_of_nonneg _ hb]

theorem ediv_le_cdiv (a : Int) {b : Int} (hb : 0 ≤ b) : a / b ≤ cdiv a b := by
  rw [cdiv_eq a hb]
  rcases Int.lt_or_eq_of_le hb with hb | rfl
  · have h1 := Int.ediv_mul_le a (Int.ne_of_gt hb)
    have h2 := Int.ediv_mul_le (-a) (Int.ne_of_gt hb)
    have : (a / b + -a / b) * b ≤ 0 := by
      rw [Int.add_mul]
      omega
    by_contra hgt
    have hpos : 1 ≤ a / b + -a / b := by omega
    have := Int.mul_le_mul_of_nonneg_right hpos (Int.le_of_lt hb)
    omega
  · simp

theorem cdiv_le_iff {a b q : Int} (hb : 0 < b) : cdiv a b ≤ q ↔ a ≤ q * b := by
  have hneg : -q ≤ -a / b ↔ -q * b ≤ -a := Int.le_ediv_iff_mul_le hb
  rw [Int.neg_mul] at hneg
  rw [cdiv_eq a (Int.le_of_lt hb)]
  omega

theorem lt_cdiv_iff {a b q : Int} (hb : 0 < b) : q < cdiv a b ↔ q * b < a := by
  rw [← Int.not_le, cdiv_le_iff hb, Int.not_le]

theorem cdiv_nonneg {a b : Int} (ha : 0 ≤ a) (hb : 0 ≤ b) : 0 ≤ cdiv a b :=
  Int.le_trans (Int.ediv_nonneg ha hb) (ediv_le_cdiv a hb)

theorem repr_inj {i j : Nat} (h : i.repr = j.repr) : i = j := by
  have hdigits := congrArg String.toList h
  rw [Nat.toList_repr, Nat.toList_repr] at hdigits
  have hi := Nat.ofDigitChars_toDigits (b := 10) (n := i) (by decide) (by decide)
  rw [hdigits, Nat.ofDigitChars_toDigits (by decide) (by decide)] at hi
  exact hi.symm

structure Slice where
  start : Option Int := none
  stop : Option Int := none
  step : Option Int := none
  deriving DecidableEq, Repr

namespace Slice

def clip (n lower upper i : Int) : Int := if i < 0 then max (i + n) lower else min i upper

def indices (s : Slice) (n : Nat) : Result (Int × Int × Int) :=
  let step := s.step.getD 1
  if step = 0 then .error (.valueError "slice step cannot be zero")
  else if step < 0 then
    .ok ((s.start.map (clip n (-1) (n - 1))).getD (n - 1), (s.stop.map (clip n (-1) (n - 1))).getD (-1), step)
  else .ok ((s.start.map (clip n 0 n)).getD 0, (s.stop.map (clip n 0 n)).getD n, step)

variable {s : Slice} {n : Nat} {start stop step : Int}

theorem exists_indices (h : s.step ≠ some 0) (n : Nat) :
    ∃ start stop step, s.indices n = .ok (start, stop, step) ∧ step ≠ 0 := by
  have hstep : s.step.getD 1 ≠ 0 := by
    cases hs : s.step with
    | none => decide
    | some step => exact fun hzero => h (hs.trans (congrArg some hzero))
  unfold indices
  dsimp only
  rw [if_neg hstep]
  split <;> exact ⟨_, _, _, rfl, hstep⟩

theorem clip_mem {lower upper i : Int} (hlower : lower ≤ 0) (hlow : lower ≤ upper) (hup : n - 1 ≤ upper) :
    lower ≤ clip n lower upper i ∧ clip n lower upper i ≤ upper := by
  unfold clip
  split <;> omega

theorem mem_range_indices (h : s.indices n = .ok (start, stop, step)) :
    ∀ i ∈ range start stop step, 0 ≤ i ∧ i < n := by
  intro i hi
  obtain ⟨k, hk, rfl⟩ := mem_range.mp hi
  unfold indices at h
  dsimp only at h
  split at h
  · cases h
  · rename_i hzero
    have hclip : ∀ {lower upper : Int} {o : Option Int} {d : Int}, lower ≤ 0 → lower ≤ upper → (n : Int) - 1 ≤ upper →
        lower ≤ d → d ≤ upper → lower ≤ (o.map (clip n lower upper)).getD d ∧
          (o.map (clip n lower upper)).getD d ≤ upper := by
      intro lower upper o d hlower hlow hup hd hd'
      cases o with
      | none => exact ⟨hd, hd'⟩
      | some i => exact clip_mem hlower hlow hup
    split at h
    · rename_i hneg
      cases h
      have hstart := @hclip (-1) ((n : Int) - 1) s.start ((n : Int) - 1) (by omega) (by omega) (by omega) (by omega)
        (by omega)
      have hstop := @hclip (-1) ((n : Int) - 1) s.stop (-1) (by omega) (by omega) (by omega) (by omega) (by omega)
      have hlt := (lt_rangeLength_iff_of_neg hneg k).mp hk
      have hdown : (k : Int) * s.step.getD 1 ≤ 0 := Int.mul_nonpos_of_nonneg_of_nonpos (by omega) (Int.le_of_lt hneg)
      omega
    · rename_i hpos
      cases h
      have hstart := @hclip 0 (n : Int) s.start 0 (by omega) (by omega) (by omega) (by omega) (by omega)
      have hstop := @hclip 0 (n : Int) s.stop n (by omega) (by omega) (by omega) (by omega) (by omega)
      have hlt := (lt_rangeLength_iff (by omega) k).mp hk
      have hup : 0 ≤ (k : Int) * s.step.getD 1 := Int.mul_nonneg (by omega) (by omega)
      omega

end Slice

end Vllm.Py
