import Mathlib.Algebra.Order.Ring.Abs
import Mathlib.Data.Rat.Floor
import Vllm.Lib.Result
import Vllm.Lib.Rounding

namespace Vllm.Gfx936

open Rounding

def symmetricQuantize (values : List Rat) (limit : Int) : List Int × Rat :=
  let maximum := (values.map fun value => |value|).max?.getD 0
  let scale := if maximum > 0 then maximum / limit else 1
  (values.map fun value => max (-limit) (min limit (halfEven (value / scale))), scale)

def quantizeRowW8Reference (values : List Rat) : Result (List Int × Rat) :=
  if values = [] then .error (.valueError "W8 row must not be empty")
  else .ok (symmetricQuantize values 127)

def nibble (value : Int) : Nat := (value % 16).toNat

/-- The inner loop over `range(0, group_size, 2)`. -/
def packPairs : List Int → Result (List UInt8)
  | [] => .ok []
  | [_] => .error .indexError
  | low :: high :: rest => do
    let packed ← packPairs rest
    return UInt8.ofNat (nibble low ||| nibble high <<< 4) :: packed

def quantizeGroups (groupSize : Nat) : Nat → List Rat → Result (List UInt8 × List Rat)
  | 0, _ => .ok ([], [])
  | n + 1, values => do
    let (quantized, scale) := symmetricQuantize (values.take groupSize) 7
    let packed ← packPairs quantized
    let (rest, scales) ← quantizeGroups groupSize n (values.drop groupSize)
    return (packed ++ rest, scale :: scales)

def quantizeGroupW4Reference (values : List Rat) (groupSize : Int) : Result (List UInt8 × List Rat) :=
  if groupSize ≤ 0 ∨ values.length = 0 ∨ (values.length : Int) % groupSize ≠ 0 then
    .error (.valueError "W4 row length must be a positive multiple of group_size")
  else quantizeGroups groupSize.toNat (values.length / groupSize.toNat) values

def signed (nibble : Nat) : Int := if nibble ≥ 8 then (nibble : Int) - 16 else nibble

def unpackGroupW4Reference (packed : List UInt8) (valueCount : Int) : Result (List Int) :=
  if valueCount < 0 ∨ valueCount % 2 ≠ 0 ∨ (packed.length : Int) * 2 ≠ valueCount then
    .error (.valueError "packed W4 length does not match value_count")
  else .ok (packed.flatMap fun byte => [signed (byte.toNat &&& 15), signed (byte.toNat >>> 4)])

/-! The scale is the largest value over the limit, so the clamp never acts. -/

section Symmetric

variable {values : List Rat} {limit : Int} {x : Rat}

def scaleOf (values : List Rat) (limit : Int) : Rat := (symmetricQuantize values limit).2

theorem abs_le_maximum (hx : x ∈ values) : |x| ≤ (values.map fun value => |value|).max?.getD 0 := by
  have hmem : |x| ∈ values.map fun value => |value| := List.mem_map_of_mem hx
  cases hmax : (values.map fun value => |value|).max? with
  | none =>
    rw [List.max?_eq_none_iff] at hmax
    rw [hmax] at hmem
    cases hmem
  | some y => exact (List.max?_le_iff hmax).mp le_rfl _ hmem

theorem scaleOf_pos (hlimit : 0 < limit) : 0 < scaleOf values limit := by
  have hlimit' : (0 : Rat) < limit := by exact_mod_cast hlimit
  show 0 < if (values.map fun value => |value|).max?.getD 0 > 0 then
    (values.map fun value => |value|).max?.getD 0 / (limit : Rat) else 1
  split
  · rename_i hpos
    exact div_pos hpos hlimit'
  · exact one_pos

theorem abs_div_scaleOf_le (hlimit : 0 < limit) (hx : x ∈ values) : |x / scaleOf values limit| ≤ limit := by
  have hlimit' : (0 : Rat) < limit := by exact_mod_cast hlimit
  have hscale := @scaleOf_pos values limit hlimit
  rw [abs_div, abs_of_pos hscale, div_le_iff₀ hscale]
  have hle := abs_le_maximum hx
  have hdef : scaleOf values limit = if (values.map fun value => |value|).max?.getD 0 > 0 then
    (values.map fun value => |value|).max?.getD 0 / (limit : Rat) else 1 := rfl
  rw [hdef]
  split
  · rwa [mul_div_cancel₀ _ hlimit'.ne']
  · rename_i hzero
    -- all values are zero
    have : 0 ≤ (limit : Rat) * 1 := by linarith
    linarith [not_lt.mp hzero]

def quantizedTo (values : List Rat) (limit : Int) (x : Rat) : Int := halfEven (x / scaleOf values limit)

theorem symmetricQuantize_eq (hlimit : 0 < limit) : symmetricQuantize values limit =
    (values.map (quantizedTo values limit), scaleOf values limit) := by
  refine Prod.ext (List.map_congr_left fun x hx => ?_) rfl
  obtain ⟨hlow, hhigh⟩ := abs_le.mp (abs_halfEven_le (abs_div_scaleOf_le hlimit hx))
  show max (-limit) (min limit (halfEven (x / scaleOf values limit))) = halfEven (x / scaleOf values limit)
  rw [min_eq_right hhigh, max_eq_right hlow]

theorem quantizedTo_spec (hlimit : 0 < limit) (hx : x ∈ values) : |quantizedTo values limit x| ≤ limit ∧
    |(quantizedTo values limit x : Rat) * scaleOf values limit - x| ≤ scaleOf values limit / 2 :=
  ⟨abs_halfEven_le (abs_div_scaleOf_le hlimit hx), abs_halfEven_mul_sub_le (scaleOf_pos hlimit) x⟩

end Symmetric

/-! Packing in pairs can be undone, as long as every group is made of pairs. -/

theorem signed_nibble {q : Int} (hq : |q| ≤ 7) : signed (nibble q) = q := by
  obtain ⟨hlow, hhigh⟩ := abs_le.mp hq
  unfold signed nibble
  split <;> omega

theorem nibbles_of_byte {low high : Nat} (hlow : low < 16) (hhigh : high < 16) :
    (UInt8.ofNat (low ||| high <<< 4)).toNat &&& 15 = low ∧
      (UInt8.ofNat (low ||| high <<< 4)).toNat >>> 4 = high := by
  have hall : ∀ low high : Fin 16, (UInt8.ofNat (low.val ||| high.val <<< 4)).toNat &&& 15 = low.val ∧
      (UInt8.ofNat (low.val ||| high.val <<< 4)).toNat >>> 4 = high.val := by decide +kernel
  exact hall ⟨low, hlow⟩ ⟨high, hhigh⟩

theorem nibble_lt (q : Int) : nibble q < 16 := by
  unfold nibble
  omega

def unpacked (packed : List UInt8) : List Int :=
  packed.flatMap fun byte => [signed (byte.toNat &&& 15), signed (byte.toNat >>> 4)]

theorem packPairs_spec {l : List Int} (hl : ∀ q ∈ l, |q| ≤ 7) (heven : l.length % 2 = 0) :
    ∃ packed, packPairs l = .ok packed ∧ packed.length * 2 = l.length ∧ unpacked packed = l := by
  induction l using packPairs.induct with
  | case1 => exact ⟨[], rfl, rfl, rfl⟩
  | case2 q => simp at heven
  | case3 low high rest ih =>
    rw [List.length_cons, List.length_cons] at heven
    obtain ⟨packed, hpacked, hlen, hun⟩ := ih (fun q hq => hl q (by simp [hq])) (by omega)
    refine ⟨UInt8.ofNat (nibble low ||| nibble high <<< 4) :: packed, ?_, ?_, ?_⟩
    · simp only [packPairs, hpacked]
      rfl
    · simp only [List.length_cons]
      omega
    · obtain ⟨hlow, hhigh⟩ := nibbles_of_byte (nibble_lt low) (nibble_lt high)
      have hrest : unpacked (UInt8.ofNat (nibble low ||| nibble high <<< 4) :: packed) =
          signed (nibble low) :: signed (nibble high) :: unpacked packed := by
        rw [unpacked, List.flatMap_cons, hlow, hhigh]
        rfl
      rw [hrest, hun, signed_nibble (hl low (by simp)), signed_nibble (hl high (by simp))]

theorem packPairs_odd {l : List Int} (hodd : l.length % 2 = 1) : packPairs l = .error .indexError := by
  induction l using packPairs.induct with
  | case1 => cases hodd
  | case2 q => rfl
  | case3 low high rest ih =>
    rw [List.length_cons, List.length_cons] at hodd
    have hrest := ih (by omega)
    simp only [packPairs, hrest]
    rfl

def groupValues (groupSize : Nat) : Nat → List Rat → List Int
  | 0, _ => []
  | n + 1, values =>
    (symmetricQuantize (values.take groupSize) 7).1 ++ groupValues groupSize n (values.drop groupSize)

def Approximates (values : List Rat) (groupSize : Nat) (limit : Int) (quantized : List Int)
    (scales : List Rat) : Prop :=
  quantized.length = values.length ∧ ∀ (i : Nat) (x : Rat), values[i]? = some x → ∃ q s,
    quantized[i]? = some q ∧ scales[i / groupSize]? = some s ∧ |q| ≤ limit ∧ |(q : Rat) * s - x| ≤ s / 2

theorem approximates_symmetricQuantize {values : List Rat} {limit : Int} (hlimit : 0 < limit) {groupSize : Nat}
    (hle : values.length ≤ groupSize) :
    Approximates values groupSize limit (symmetricQuantize values limit).1
      [(symmetricQuantize values limit).2] := by
  rw [symmetricQuantize_eq hlimit]
  refine ⟨List.length_map _, fun i x hx => ?_⟩
  obtain ⟨hbound, herror⟩ := quantizedTo_spec hlimit (List.mem_of_getElem? hx)
  have hi : i < groupSize := Nat.lt_of_lt_of_le (List.getElem?_eq_some_iff.mp hx).1 hle
  refine ⟨quantizedTo values limit x, scaleOf values limit, ?_, ?_, hbound, herror⟩
  · rw [List.getElem?_map, hx]
    rfl
  · rw [Nat.div_eq_of_lt hi]
    rfl

theorem Approximates.cons {values rest : List Rat} {groupSize : Nat} {limit : Int} {quantized q : List Int}
    {s : Rat} {scales : List Rat} (hsize : values.length = groupSize) (hpos : 0 < groupSize)
    (hgroup : Approximates values groupSize limit q [s]) (hrest : Approximates rest groupSize limit quantized scales) :
    Approximates (values ++ rest) groupSize limit (q ++ quantized) (s :: scales) := by
  obtain ⟨hlen, hgroup⟩ := hgroup
  obtain ⟨hlen', hrest⟩ := hrest
  refine ⟨by rw [List.length_append, List.length_append, hlen, hlen'], fun i x hx => ?_⟩
  rcases Nat.lt_or_ge i groupSize with hi | hi
  · rw [List.getElem?_append_left (by omega)] at hx
    obtain ⟨q', s', hq', hs', h⟩ := hgroup i x hx
    rw [Nat.div_eq_of_lt hi] at hs' ⊢
    exact ⟨q', s', by rw [List.getElem?_append_left (by omega), hq'], hs', h⟩
  · rw [List.getElem?_append_right (by omega), hsize] at hx
    obtain ⟨q', s', hq', hs', h⟩ := hrest (i - groupSize) x hx
    refine ⟨q', s', ?_, ?_, h⟩
    · rw [List.getElem?_append_right (by omega), hlen, hsize, hq']
    · rw [Nat.div_eq_sub_div hpos hi, List.getElem?_cons_succ, hs']

theorem quantizeGroups_spec {groupSize : Nat} (hpos : 0 < groupSize) (heven : groupSize % 2 = 0) (n : Nat)
    {values : List Rat} (hlen : values.length = n * groupSize) :
    ∃ packed scales, quantizeGroups groupSize n values = .ok (packed, scales) ∧
      packed.length * 2 = values.length ∧ unpacked packed = groupValues groupSize n values ∧
      Approximates values groupSize 7 (groupValues groupSize n values) scales := by
  induction n generalizing values with
  | zero =>
    have hnil : values = [] := List.length_eq_zero_iff.mp (by omega)
    subst hnil
    exact ⟨[], [], rfl, rfl, rfl, rfl, nofun⟩
  | succ n ih =>
    have htake : (values.take groupSize).length = groupSize := by
      rw [List.length_take, hlen, Nat.succ_mul]
      omega
    have hdrop : (values.drop groupSize).length = n * groupSize := by
      rw [List.length_drop, hlen, Nat.succ_mul]
      omega
    obtain ⟨rest, scales, hrest, hrestlen, hun, happrox⟩ := ih hdrop
    have hgroup := @approximates_symmetricQuantize (values.take groupSize) 7 (by decide) groupSize htake.le
    have hbound : ∀ q ∈ (symmetricQuantize (values.take groupSize) 7).1, |q| ≤ 7 := by
      intro q hq
      rw [symmetricQuantize_eq (by decide), List.mem_map] at hq
      obtain ⟨x, hx, rfl⟩ := hq
      exact (quantizedTo_spec (by decide) hx).1
    obtain ⟨packed, hpacked, hpackedlen, hunpacked⟩ := packPairs_spec hbound (by rw [hgroup.1, htake, heven])
    refine ⟨packed ++ rest, (symmetricQuantize (values.take groupSize) 7).2 :: scales, ?_, ?_, ?_, ?_⟩
    · simp only [quantizeGroups, hpacked, hrest]
      rfl
    · rw [List.length_append, Nat.add_mul, hpackedlen, hgroup.1, hrestlen, ← List.length_append,
        List.take_append_drop]
    · rw [groupValues, ← hunpacked, ← hun]
      exact List.flatMap_append
    · have := Approximates.cons htake hpos hgroup happrox
      rwa [List.take_append_drop] at this

theorem quantizeGroups_odd {groupSize n : Nat} (hodd : groupSize % 2 = 1) {values : List Rat}
    (hlen : values.length = (n + 1) * groupSize) :
    quantizeGroups groupSize (n + 1) values = .error .indexError := by
  have htake : (values.take groupSize).length = groupSize := by
    rw [List.length_take, hlen, Nat.succ_mul]
    omega
  have hpack : packPairs (symmetricQuantize (values.take groupSize) 7).1 = .error .indexError := by
    refine packPairs_odd ?_
    rw [symmetricQuantize_eq (by decide), List.length_map, htake, hodd]
  simp only [quantizeGroups, hpack]
  rfl

/-- The four-bit quantiser returns normally, approximates every value, and its bytes can be unpacked. -/
def W4Invertible (values : List Rat) (groupSize : Int) : Prop :=
  ∃ packed scales, quantizeGroupW4Reference values groupSize = .ok (packed, scales) ∧
    unpackGroupW4Reference packed values.length =
      .ok (groupValues groupSize.toNat (values.length / groupSize.toNat) values) ∧
    Approximates values groupSize.toNat 7
      (groupValues groupSize.toNat (values.length / groupSize.toNat) values) scales

def W8Bounded (values : List Rat) : Prop :=
  ∃ quantized scale, quantizeRowW8Reference values = .ok (quantized, scale) ∧
    Approximates values values.length 127 quantized [scale]

/-- A row that is not refused is quantised as promised exactly if its groups have an even size: the
pair loop runs past the end of an odd group. The eight-bit quantiser needs no condition. -/
theorem referenceOk_iff {values : List Rat} {groupSize : Int}
    (haccept : ∀ msg, quantizeGroupW4Reference values groupSize ≠ .error (.valueError msg)) :
    W4Invertible values groupSize ∧ W8Bounded values ↔ groupSize % 2 = 0 := by
  have hguard : ¬ (groupSize ≤ 0 ∨ values.length = 0 ∨ (values.length : Int) % groupSize ≠ 0) := by
    intro hbad
    exact haccept _ (if_pos hbad)
  obtain ⟨n, rfl⟩ : ∃ n : Nat, groupSize = n := ⟨groupSize.toNat, by omega⟩
  have hrun : quantizeGroupW4Reference values n = quantizeGroups n (values.length / n) values := by
    rw [quantizeGroupW4Reference, if_neg hguard, Int.toNat_natCast]
  have hpos : 0 < n := by omega
  have hdvd : n ∣ values.length := by
    have hmod : (values.length : Int) % n = 0 := by omega
    exact Int.natCast_dvd_natCast.mp (Int.dvd_of_emod_eq_zero hmod)
  have hlen : values.length = values.length / n * n := (Nat.div_mul_cancel hdvd).symm
  constructor
  · rintro ⟨⟨packed, scales, hok, -, -⟩, -⟩
    by_contra hodd
    obtain ⟨k, hk⟩ : ∃ k, values.length / n = k + 1 := by
      have : 0 < values.length / n := Nat.div_pos (Nat.le_of_dvd (by omega) hdvd) hpos
      exact ⟨values.length / n - 1, by omega⟩
    rw [hrun, hk, quantizeGroups_odd (by omega) (by rw [← hk]; exact hlen)] at hok
    cases hok
  · intro heven
    refine ⟨?_, ?_⟩
    · obtain ⟨packed, scales, hok, hpacked, hun, happrox⟩ :=
        quantizeGroups_spec hpos (by omega) (values.length / n) hlen
      refine ⟨packed, scales, hrun.trans hok, ?_, happrox⟩
      rw [unpackGroupW4Reference, if_neg (by omega)]
      exact congrArg Except.ok hun
    · refine ⟨_, _, if_neg ?_, approximates_symmetricQuantize (by decide) le_rfl⟩
      rintro rfl
      exact hguard (.inr (.inl rfl))

theorem referenceOk_pair : W4Invertible [1, -1 / 2] 2 ∧ W8Bounded [1, -1 / 2] :=
  (@referenceOk_iff [1, -1 / 2] 2 fun msg h => by
    have hok : ∃ r, quantizeGroupW4Reference [1, -1 / 2] 2 = .ok r := ⟨_, rfl⟩
    obtain ⟨r, hr⟩ := hok
    rw [hr] at h
    cases h).mpr rfl

/-- A row of one value in a group of one is accepted and then runs out of values. -/
theorem not_referenceOk_single : quantizeGroupW4Reference [1] 1 = .error .indexError ∧
    ¬ (W4Invertible [1] 1 ∧ W8Bounded [1]) := by
  have herr : quantizeGroupW4Reference [1] 1 = .error .indexError := rfl
  refine ⟨herr, ?_⟩
  rintro ⟨⟨packed, scales, hok, -⟩, -⟩
  rw [herr] at hok
  cases hok

end Vllm.Gfx936
