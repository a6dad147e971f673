import Vllm.SchedulerUpdate
import Vllm.Lib.Numpy
import Vllm.Lib.Segments

namespace Vllm.Repetition

section Code

variable {α : Type} [DecidableEq α]

def repeatsTarget (tokenIds : List α) (patternLen n : Int) (targetToken : α) : List Int → Result Bool
  | [] => .ok true
  | m :: ms => do
    let token ← Numpy.item tokenIds (-(patternLen * m + n))
    if token ≠ targetToken then return false
    else repeatsTarget tokenIds patternLen n targetToken ms

def repeatsPattern (tokenIds : List α) (patternLen repetitionMinCount : Int) : List Int → Result Bool
  | [] => .ok true
  | n :: ns => do
    let targetToken ← Numpy.item tokenIds (-n)
    let same ← repeatsTarget tokenIds patternLen n targetToken (Py.range 1 repetitionMinCount 1)
    if same then repeatsPattern tokenIds patternLen repetitionMinCount ns else return false

def hasRepeatingPattern (tokenIds : List α) (patternLen repetitionMinCount : Int) : Result Bool :=
  repeatsPattern tokenIds patternLen repetitionMinCount (Py.range 1 (patternLen + 1) 1)

def checkPatternLens (tokenIds : List α) (minCount : Int) : List Int → Result Bool
  | [] => .ok false
  | patternLen :: rest =>
    if patternLen * minCount > tokenIds.length then .ok false
    else do
      let found ← hasRepeatingPattern tokenIds patternLen minCount
      if found then return true else checkPatternLens tokenIds minCount rest

def checkSequenceRepetition (tokenIds : List α) (params : RepetitionDetectionParams) : Result Bool :=
  let minPatternSize := if params.minPatternSize ≤ 0 then 1 else params.minPatternSize
  if params.maxPatternSize ≤ 0 ∨ params.minCount < 2 ∨ minPatternSize > params.maxPatternSize then .ok false
  else checkPatternLens tokenIds params.minCount (Py.range minPatternSize (params.maxPatternSize + 1) 1)

end Code

/-- The sequence ends with `count` copies of one block of `p` tokens. -/
def EndsWithCopies {α : Type} (tokenIds : List α) (p count : Nat) : Prop :=
  ∃ block : List α, block.length = p ∧
    tokenIds.drop (tokenIds.length - count * p) = (List.replicate count block).flatten

section Laws

variable {α : Type} {tokenIds : List α} {p count : Nat}

theorem endsWithCopies_iff (hcount : 0 < count) (hfit : count * p ≤ tokenIds.length) :
    EndsWithCopies tokenIds p count ↔ ∀ n, 0 < n → n ≤ p → ∀ m < count,
      tokenIds[tokenIds.length - (p * m + n)]? = tokenIds[tokenIds.length - n]? := by
  have hlen : (tokenIds.drop (tokenIds.length - count * p)).length = count * p := by
    rw [List.length_drop]
    omega
  -- token `n` from the end of the repetition that `m` others follow
  have hplace : ∀ n, 0 < n → n ≤ p → ∀ m < count,
      (tokenIds.drop (tokenIds.length - count * p))[(count - 1 - m) * p + (p - n)]? =
        tokenIds[tokenIds.length - (p * m + n)]? := by
    intro n hpos hn m hm
    have hsplit : count * p = (count - 1 - m) * p + p * m + p := by
      rw [Nat.mul_comm p m, ← Nat.add_mul, ← Nat.succ_mul]
      congr 1
      omega
    rw [List.getElem?_drop]
    congr 1
    omega
  rw [EndsWithCopies, Segments.eq_flatten_replicate_iff hcount hlen]
  constructor
  · intro h n hpos hn m hm
    have hlast := hplace n hpos hn 0 hcount
    rw [Nat.mul_zero, Nat.zero_add, Nat.sub_zero] at hlast
    rw [← hplace n hpos hn m hm, ← hlast]
    exact h _ (by omega) _ (by omega)
  · intro h i hi j hj
    have hlast := hplace (p - j) (by omega) (by omega) 0 hcount
    have hhere := hplace (p - j) (by omega) (by omega) (count - 1 - i) (by omega)
    rw [Nat.mul_zero, Nat.zero_add, Nat.sub_zero, Nat.sub_sub_self hj.le] at hlast
    rw [Nat.sub_sub_self (by omega), Nat.sub_sub_self hj.le] at hhere
    rw [hlast, hhere]
    exact h _ (by omega) (by omega) _ (by omega)

theorem item_neg {k : Nat} (hpos : 0 < k) (hle : k ≤ tokenIds.length) :
    ∃ token, Numpy.item tokenIds (-(k : Int)) = .ok token ∧ tokenIds[tokenIds.length - k]? = some token := by
  have hlt : tokenIds.length - k < tokenIds.length := by omega
  have hindex : Py.index tokenIds.length (-(k : Int)) = some (tokenIds.length - k) := by
    rw [Py.index, if_neg (by omega), if_pos (by omega)]
    congr 1
    omega
  refine ⟨tokenIds[tokenIds.length - k], ?_, List.getElem?_eq_getElem hlt⟩
  rw [Numpy.item, hindex]
  dsimp only
  rw [Result.getItem, List.getElem?_eq_getElem hlt]

variable [DecidableEq α]

theorem repeatsTarget_spec {n : Nat} (hn : 0 < n) {target : α} {ms : List Int}
    (hms : ∀ m ∈ ms, 0 ≤ m ∧ p * m + n ≤ tokenIds.length) :
    ∃ b, repeatsTarget tokenIds p n target ms = .ok b ∧
      (b = true ↔ ∀ m ∈ ms, tokenIds[tokenIds.length - (p * m.toNat + n)]? = some target) := by
  induction ms with
  | nil => exact ⟨true, rfl, iff_of_true rfl nofun⟩
  | cons m ms ih =>
    obtain ⟨hm, hle⟩ := hms m List.mem_cons_self
    obtain ⟨k, rfl⟩ := Int.eq_ofNat_of_zero_le hm
    obtain ⟨rest, hrest, hiff⟩ := ih fun m hm => hms m (List.mem_cons_of_mem _ hm)
    have hplace : p * k + n ≤ tokenIds.length := by exact_mod_cast hle
    obtain ⟨token, hitem, htoken⟩ := item_neg (Nat.lt_of_lt_of_le hn (Nat.le_add_left n (p * k))) hplace
    rw [repeatsTarget, show -((p : Int) * (k : Int) + n) = -((p * k + n : Nat) : Int) by push_cast; rfl, hitem,
      Result.ok_bind]
    by_cases hsame : token = target
    · rw [if_neg (fun h => h hsame)]
      refine ⟨rest, hrest, ?_⟩
      rw [hiff, List.forall_mem_cons, Int.toNat_natCast, htoken, hsame]
      exact (and_iff_right rfl).symm
    · rw [if_pos hsame]
      refine ⟨false, rfl, iff_of_false Bool.false_ne_true fun h => hsame ?_⟩
      have hfirst := h _ List.mem_cons_self
      rw [Int.toNat_natCast, htoken] at hfirst
      exact Option.some.inj hfirst

theorem repeatsPattern_spec (hfit : count * p ≤ tokenIds.length) {ns : List Int}
    (hns : ∀ n ∈ ns, 0 < n ∧ n ≤ p) (hcount : 0 < count) :
    ∃ b, repeatsPattern tokenIds p count ns = .ok b ∧ (b = true ↔ ∀ n ∈ ns, ∀ m < count,
      tokenIds[tokenIds.length - (p * m + n.toNat)]? = tokenIds[tokenIds.length - n.toNat]?) := by
  induction ns with
  | nil => exact ⟨true, rfl, iff_of_true rfl nofun⟩
  | cons n ns ih =>
    obtain ⟨hpos, hle⟩ := hns n List.mem_cons_self
    obtain ⟨k, rfl⟩ := Int.eq_ofNat_of_zero_le hpos.le
    have hpos : 0 < k := by exact_mod_cast hpos
    have hle : k ≤ p := by exact_mod_cast hle
    have hbound : ∀ m, m < count → p * m + k ≤ tokenIds.length := by
      intro m hm
      have hmul : p * (m + 1) ≤ p * count := Nat.mul_le_mul_left p hm
      rw [Nat.mul_succ, Nat.mul_comm p count] at hmul
      omega
    obtain ⟨rest, hrest, hiff⟩ := ih fun n hn => hns n (List.mem_cons_of_mem _ hn)
    have hlast : k ≤ tokenIds.length := by
      have := hbound 0 hcount
      omega
    obtain ⟨target, hitem, htarget⟩ := item_neg hpos hlast
    have hms : ∀ m ∈ Py.range 1 count 1, 0 ≤ m ∧ p * m + (k : Int) ≤ tokenIds.length := by
      intro m hm
      obtain ⟨hone, hlt⟩ := Py.mem_range_one.mp hm
      obtain ⟨j, rfl⟩ := Int.eq_ofNat_of_zero_le (show 0 ≤ m by omega)
      exact ⟨Int.natCast_nonneg j, by exact_mod_cast hbound j (by omega)⟩
    obtain ⟨same, hsame, htargets⟩ := @repeatsTarget_spec α tokenIds p _ k hpos target _ hms
    have hall : same = true ↔ ∀ m < count,
        tokenIds[tokenIds.length - (p * m + k)]? = tokenIds[tokenIds.length - k]? := by
      rw [htargets, htarget]
      constructor
      · intro h m hm
        rcases Nat.eq_zero_or_pos m with rfl | hm'
        · rw [Nat.mul_zero, Nat.zero_add, htarget]
        · exact h m (Py.mem_range_one.mpr ⟨by omega, by omega⟩)
      · intro h m hm
        obtain ⟨hone, hlt⟩ := Py.mem_range_one.mp hm
        exact h _ (by omega)
    rw [repeatsPattern, hitem, Result.ok_bind, hsame, Result.ok_bind]
    rw [List.forall_mem_cons, Int.toNat_natCast, ← hall]
    cases same with
    | true => exact ⟨rest, hrest, by rw [hiff]; exact (and_iff_right rfl).symm⟩
    | false => exact ⟨false, rfl, by simp⟩

theorem hasRepeatingPattern_spec (hcount : 0 < count) (hfit : count * p ≤ tokenIds.length) :
    ∃ b, hasRepeatingPattern tokenIds p count = .ok b ∧ (b = true ↔ EndsWithCopies tokenIds p count) := by
  have hns : ∀ n ∈ Py.range 1 ((p : Int) + 1) 1, 0 < n ∧ n ≤ p := by
    intro n hn
    obtain ⟨hone, hlt⟩ := Py.mem_range_one.mp hn
    omega
  obtain ⟨b, hok, hiff⟩ := repeatsPattern_spec hfit hns hcount
  refine ⟨b, hok, ?_⟩
  rw [hiff, endsWithCopies_iff hcount hfit]
  constructor
  · exact fun h n hpos hle => h n (Py.mem_range_one.mpr ⟨by omega, by omega⟩)
  · intro h n hn
    obtain ⟨hpos, hle⟩ := hns n hn
    exact h n.toNat (by omega) (by omega)

theorem checkPatternLens_spec (hcount : 0 < count) {ps : List Int} (hps : ∀ p ∈ ps, 0 ≤ p)
    (hsorted : ps.Pairwise (· < ·)) :
    ∃ b, checkPatternLens tokenIds count ps = .ok b ∧ (b = true ↔ ∃ p : Nat, (p : Int) ∈ ps ∧
      p * count ≤ tokenIds.length ∧ EndsWithCopies tokenIds p count) := by
  induction ps with
  | nil => exact ⟨false, rfl, iff_of_false Bool.false_ne_true (fun ⟨p, hp, _⟩ => absurd hp List.not_mem_nil)⟩
  | cons q ps ih =>
    obtain ⟨p, rfl⟩ := Int.eq_ofNat_of_zero_le (hps q List.mem_cons_self)
    obtain ⟨hfirst, hsorted⟩ := List.pairwise_cons.mp hsorted
    obtain ⟨rest, hrest, hiff⟩ := ih (fun p hp => hps p (List.mem_cons_of_mem _ hp)) hsorted
    rw [checkPatternLens]
    by_cases hfit : p * count ≤ tokenIds.length
    · obtain ⟨found, hfound, hcopies⟩ := hasRepeatingPattern_spec hcount (Nat.mul_comm p count ▸ hfit)
      rw [if_neg (Int.not_lt.mpr (by exact_mod_cast hfit)), hfound, Result.ok_bind]
      cases found with
      | true => exact ⟨true, rfl, iff_of_true rfl ⟨p, List.mem_cons_self, hfit, hcopies.mp rfl⟩⟩
      | false =>
        refine ⟨rest, hrest, hiff.trans ⟨fun ⟨p', hp', h⟩ => ⟨p', List.mem_cons_of_mem _ hp', h⟩, ?_⟩⟩
        rintro ⟨p', hp', hfit', hcopies'⟩
        rcases List.mem_cons.mp hp' with heq | hp'
        · obtain rfl : p' = p := by exact_mod_cast heq
          exact absurd (hcopies.mpr hcopies') Bool.false_ne_true
        · exact ⟨p', hp', hfit', hcopies'⟩
    · rw [if_pos (show (p : Int) * count > tokenIds.length by exact_mod_cast Nat.lt_of_not_le hfit)]
      refine ⟨false, rfl, iff_of_false Bool.false_ne_true ?_⟩
      rintro ⟨p', hp', hfit', -⟩
      have hle : p ≤ p' := by
        rcases List.mem_cons.mp hp' with heq | hp'
        · exact (by exact_mod_cast heq : p' = p).ge
        · exact (by exact_mod_cast hfirst _ hp' : p < p').le
      exact hfit ((Nat.mul_le_mul_right count hle).trans hfit')

/-- The check finds exactly the sequences that end with a repeated pattern of an admitted length, and reads
no token that is not there. -/
theorem checkSequenceRepetition_iff (tokenIds : List α) (params : RepetitionDetectionParams) :
    ∃ b, checkSequenceRepetition tokenIds params = .ok b ∧ (b = true ↔ ∃ p : Nat,
      max 1 params.minPatternSize ≤ p ∧ p ≤ params.maxPatternSize ∧ 2 ≤ params.minCount ∧
        p * params.minCount ≤ tokenIds.length ∧ EndsWithCopies tokenIds p params.minCount.toNat) := by
  have hmin : (if params.minPatternSize ≤ 0 then 1 else params.minPatternSize) = max 1 params.minPatternSize := by
    split <;> omega
  unfold checkSequenceRepetition
  dsimp only
  rw [hmin]
  split
  · rename_i hoff
    refine ⟨false, rfl, iff_of_false Bool.false_ne_true ?_⟩
    rintro ⟨p, hle, hmax, hcount, -⟩
    omega
  · rename_i hon
    obtain ⟨count, hcount⟩ := Int.eq_ofNat_of_zero_le (show 0 ≤ params.minCount by omega)
    have hps : ∀ p ∈ Py.range (max 1 params.minPatternSize) (params.maxPatternSize + 1) 1, 0 ≤ p := by
      intro p hp
      have := Py.mem_range_one.mp hp
      omega
    rw [hcount, Int.toNat_natCast]
    have hpos : 0 < count := by omega
    obtain ⟨b, hok, hiff⟩ := @checkPatternLens_spec α tokenIds count _ hpos _ hps (Py.pairwise_range_one _ _)
    refine ⟨b, hok, hiff.trans (exists_congr fun p => ?_)⟩
    rw [Py.mem_range_one, and_assoc, Int.lt_add_one_iff]
    refine and_congr_right fun _ => and_congr_right fun _ => ?_
    rw [and_iff_right (show (2 : Int) ≤ count by omega)]
    exact and_congr_left fun _ => by norm_cast

/-! The scheduler's model of the check leaves the indices out. -/

theorem hasRepeatingPattern_eq {tokenIds : List Token} (hcount : 0 < count)
    (hfit : count * p ≤ tokenIds.length) :
    hasRepeatingPattern tokenIds p count = .ok (Vllm.hasRepeatingPattern tokenIds p count) := by
  obtain ⟨b, hok, hiff⟩ := hasRepeatingPattern_spec hcount hfit
  have hplace : ∀ n < p, ∀ m < count,
      tokenIds.reverse[p * m + n]? = tokenIds[tokenIds.length - (p * m + (n + 1))]? := by
    intro n hn m hm
    have hmul : p * (m + 1) ≤ p * count := Nat.mul_le_mul_left p hm
    rw [Nat.mul_succ, Nat.mul_comm p count] at hmul
    rw [List.getElem?_reverse (by omega)]
    congr 1
    omega
  have hsame : Vllm.hasRepeatingPattern tokenIds p count = true ↔ EndsWithCopies tokenIds p count := by
    simp only [Vllm.hasRepeatingPattern, List.all_eq_true, List.mem_range, beq_iff_eq]
    rw [endsWithCopies_iff hcount hfit]
    constructor
    · intro h n hpos hle m hm
      rcases Nat.eq_zero_or_pos m with rfl | hm'
      · rw [Nat.mul_zero, Nat.zero_add]
      · have hmatch := h (n - 1) (by omega) (m - 1) (by omega)
        have hzero := hplace (n - 1) (by omega) 0 hcount
        rw [Nat.mul_zero, Nat.zero_add, Nat.zero_add] at hzero
        rw [Nat.sub_add_cancel hm', hplace (n - 1) (by omega) m hm, hzero, Nat.sub_add_cancel hpos] at hmatch
        exact hmatch
    · intro h n hn m hm
      have hzero := hplace n hn 0 hcount
      rw [Nat.mul_zero, Nat.zero_add, Nat.zero_add] at hzero
      rw [hplace n hn (m + 1) (by omega), hzero]
      exact h (n + 1) (Nat.succ_pos n) hn (m + 1) (by omega)
  rw [hok, Bool.eq_iff_iff.mpr (hiff.trans hsame.symm)]

theorem checkPatternLens_eq {tokenIds : List Token} (hcount : 0 < count) (fuel p : Nat) :
    checkPatternLens tokenIds count (Py.range p ((p : Int) + fuel) 1) = .ok (repeatsFrom tokenIds count fuel p) := by
  induction fuel generalizing p with
  | zero =>
    rw [Py.range_one_nil (by omega)]
    rfl
  | succ fuel ih =>
    have hrest := ih (p + 1)
    rw [show ((p + 1 : Nat) : Int) + fuel = (p : Int) + (fuel + 1 : Nat) by omega, Int.natCast_succ] at hrest
    rw [Py.range_one_cons (by omega), checkPatternLens, repeatsFrom, hrest]
    by_cases hfit : p * count ≤ tokenIds.length
    · rw [if_neg (Int.not_lt.mpr (by exact_mod_cast hfit)), if_neg (Nat.not_lt.mpr hfit),
        hasRepeatingPattern_eq hcount (Nat.mul_comm p count ▸ hfit), Result.ok_bind]
      split
      · rfl
      · rfl
    · rw [if_pos (show (p : Int) * count > tokenIds.length by exact_mod_cast Nat.lt_of_not_le hfit),
        if_pos (Nat.lt_of_not_le hfit)]

theorem checkSequenceRepetition_eq (tokenIds : List Token) (params : RepetitionDetectionParams) :
    checkSequenceRepetition tokenIds params = .ok (Vllm.checkSequenceRepetition tokenIds params) := by
  unfold checkSequenceRepetition Vllm.checkSequenceRepetition
  dsimp only
  generalize hmin : (if params.minPatternSize ≤ 0 then 1 else params.minPatternSize) = first
  have hfirst : 0 < first := by
    rw [← hmin]
    split <;> omega
  by_cases hoff : params.maxPatternSize ≤ 0 ∨ params.minCount < 2 ∨ first > params.maxPatternSize
  · rw [if_pos hoff, if_pos hoff]
  · rw [if_neg hoff, if_neg hoff]
    obtain ⟨p, rfl⟩ := Int.eq_ofNat_of_zero_le hfirst.le
    obtain ⟨count, hcount⟩ := Int.eq_ofNat_of_zero_le (show 0 ≤ params.minCount by omega)
    obtain ⟨fuel, hfuel⟩ := Int.eq_ofNat_of_zero_le (show 0 ≤ params.maxPatternSize + 1 - (p : Int) by omega)
    have hcheck := @checkPatternLens_eq count tokenIds (by omega) fuel p
    rw [show (p : Int) + fuel = params.maxPatternSize + 1 by omega] at hcheck
    rw [hcount, hcheck, hfuel, Int.toNat_natCast, Int.toNat_natCast, Int.toNat_natCast]

end Laws

end Vllm.Repetition
