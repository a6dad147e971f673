import Vllm.HashIsolation

namespace Vllm

open HashChain MultiModalFeatureSpec

variable {h : BlockHasher} {p : RequestParams}

def RequestParams.followUp (p : RequestParams) (r : Request) : RequestParams :=
  { p with promptTokenIds := some r.allTokenIds }

/-- At all times the hashes are those of a fresh request over the current tokens. -/
def IncrementalIsOneShot (h : BlockHasher) (p : RequestParams) : Prop :=
  ∀ r, Lifetime h p r → r.blockHashes = ((p.followUp r).init (some h)).blockHashes

def RequestParams.openItems (p : RequestParams) (s : Nat) : List MultiModalFeatureSpec :=
  p.mmFeatures.filter fun f => !f.passed s

/-- The last full block boundary of the prompt is position 0, or all items end strictly before
it, or exactly one item reaches past it. -/
def RestartsAtOpenItem (h : BlockHasher) (p : RequestParams) : Prop :=
  let s := p.blank.numTokens / h.blockSize * h.blockSize
  s = 0 ∨ (∀ f ∈ p.mmFeatures, f.stop < s) ∨ (p.openItems s).length = 1

instance (h : BlockHasher) (p : RequestParams) : Decidable (RestartsAtOpenItem h p) :=
  inferInstanceAs (Decidable (_ ∨ _ ∨ _))

theorem RequestParams.blank_itemsIn {s e : Nat} (he : ∀ f ∈ p.mmFeatures, f.stop < e) :
    p.blank.itemsIn s e = p.openItems s := by
  apply List.filter_congr
  intro f hf
  have hlt : f.offset < e := Nat.lt_of_le_of_lt f.offset_le_stop (he f hf)
  simp [touches, hlt]

theorem stop_le_last {fs : List MultiModalFeatureSpec} {last f : MultiModalFeatureSpec}
    (hfs : NonOverlapping fs) (hlast : fs.getLast? = some last) (hf : f ∈ fs) :
    f.stop ≤ last.stop := by
  obtain ⟨front, rfl⟩ := List.getLast?_eq_some_iff.mp hlast
  rcases List.mem_append.mp hf with hf | hf
  · have := (List.pairwise_append.mp hfs).2.2 f hf last (List.mem_singleton_self last)
    exact Nat.le_trans this last.offset_le_stop
  · rw [List.mem_singleton.mp hf]

theorem openItems_getLast? {s : Nat} (hmm : NonOverlapping p.mmFeatures) (hne : p.openItems s ≠ []) :
    (p.openItems s).getLast? = p.mmFeatures.getLast? := by
  unfold RequestParams.openItems at hne ⊢
  rw [← drop_passed hmm] at hne ⊢
  rw [List.getLast?_drop, if_neg]
  rw [ne_eq, List.drop_eq_nil_iff] at hne
  omega

theorem lastItemKeys_eq_iff {s : Nat} (hmm : NonOverlapping p.mmFeatures) :
    lastItemKeys p.blank s = keysOf (p.openItems s) ↔
      (∀ f ∈ p.mmFeatures, f.stop < s) ∨ (p.openItems s).length = 1 := by
  have hblank : p.blank.mmFeatures = p.mmFeatures := rfl
  cases hlast : p.mmFeatures.getLast? with
  | none =>
    have hnil := List.getLast?_eq_none_iff.mp hlast
    simp [lastItemKeys, hblank, hnil, RequestParams.openItems, keysOf]
  | some last =>
    have hmem := List.mem_of_getLast? hlast
    by_cases hlt : last.stop < s
    · have hall : ∀ f ∈ p.mmFeatures, f.stop < s :=
        fun f hf => Nat.lt_of_le_of_lt (stop_le_last hmm hlast hf) hlt
      have hopen : p.openItems s = [] := by
        rw [RequestParams.openItems, List.filter_eq_nil_iff]
        intro f hf
        simp [passed_of_last hmm hlast hlt f hf]
      rw [lastItemKeys_eq_nil hall, hopen]
      exact ⟨fun _ => Or.inl hall, fun _ => rfl⟩
    · have hkeys : lastItemKeys p.blank s = [.str last.identifier] := by
        simp only [lastItemKeys, hblank, hlast, if_neg hlt]
      rw [hkeys]
      constructor
      · intro heq
        have := congrArg List.length heq
        exact Or.inr (by simpa [keysOf] using this.symm)
      · rintro (hall | hone)
        · exact absurd (hall last hmem) hlt
        · obtain ⟨f, hf⟩ := List.length_eq_one_iff.mp hone
          have hgl := openItems_getLast? hmm (s := s) (by simp [hf])
          rw [hf, hlast] at hgl
          have hlf : f = last := by simpa using hgl
          rw [hf, hlf]
          rfl

theorem Request.keysWith_inj {r : Request} {mm mm' : List ExtraKey} {j : Nat} :
    r.keysWith h mm j = r.keysWith h mm' j ↔ mm = mm' := by
  unfold Request.keysWith
  rw [packKeys_injective.eq_iff]
  simp

theorem stop_lt_of_insidePrompt (hin : InsidePrompt p) {j : Nat}
    (hj : p.blank.numTokens / h.blockSize < j) : ∀ f ∈ p.mmFeatures, f.stop < j * h.blockSize :=
  fun f hf => Nat.lt_of_le_of_lt (hin f hf) ((Nat.div_lt_iff_lt_mul h.blockSize_pos).mp hj)

theorem grownKeys_eq_iff (hmm : NonOverlapping p.mmFeatures) (hin : InsidePrompt p) :
    (∀ j, grownKeys h p j = p.blank.extraKeysAt h j) ↔ RestartsAtOpenItem h p := by
  let k := p.blank.numTokens / h.blockSize
  have hitems : p.blank.itemsIn (k * h.blockSize) (k * h.blockSize + h.blockSize) =
      p.openItems (k * h.blockSize) := by
    apply RequestParams.blank_itemsIn
    rw [← Nat.succ_mul]
    exact stop_lt_of_insidePrompt hin (Nat.lt_succ_self k)
  by_cases hk : k = 0
  · have hcond : RestartsAtOpenItem h p := by
      refine Or.inl ?_
      show k * h.blockSize = 0
      rw [hk, Nat.zero_mul]
    refine ⟨fun _ => hcond, fun _ j => ?_⟩
    have hj : ¬ (0 < j ∧ j = k) := by omega
    rw [grownKeys, if_neg hj]
  · have hs : k * h.blockSize ≠ 0 := Nat.mul_ne_zero hk (Nat.pos_iff_ne_zero.mp h.blockSize_pos)
    have hrestart : RestartsAtOpenItem h p ↔
        lastItemKeys p.blank (k * h.blockSize) = keysOf (p.openItems (k * h.blockSize)) := by
      rw [lastItemKeys_eq_iff hmm]
      exact or_iff_right hs
    have hat : grownKeys h p k = p.blank.keysWith h (lastItemKeys p.blank (k * h.blockSize)) k :=
      if_pos ⟨Nat.pos_of_ne_zero hk, rfl⟩
    rw [hrestart, ← hitems]
    constructor
    · intro hall
      have := hall k
      rw [hat] at this
      exact Request.keysWith_inj.mp this
    · intro heq j
      by_cases hj : 0 < j ∧ j = k
      · rw [hj.2, hat, heq]
        rfl
      · exact if_neg hj

theorem followUp_hashed (hmm : NonOverlapping p.mmFeatures) (r : Request) :
    ((p.followUp r).init (some h)).Hashed h (p.blank.extraKeysAt h) :=
  hashed_of_fresh h (r := (p.followUp r).blank) hmm rfl

theorem Request.Hashed.blockHashes_eq {a b : Request} {keys : Nat → ExtraKeys}
    (ha : a.Hashed h keys) (hb : b.Hashed h keys) (htoks : a.allTokenIds = b.allTokenIds) :
    a.blockHashes = b.blockHashes := by
  rw [ha, hb]
  unfold Request.numTokens Request.chain Request.messages Request.blockAt
  rw [htoks]

theorem RestartsAtOpenItem.isOneShot (hcond : RestartsAtOpenItem h p)
    (hmm : NonOverlapping p.mmFeatures) (hin : InsidePrompt p) : IncrementalIsOneShot h p := by
  intro r hr
  have hkeys := (grownKeys_eq_iff hmm hin).mpr hcond
  have hgrown := (hr.hashed hmm hin).congr fun j _ => hkeys j
  exact hgrown.blockHashes_eq (followUp_hashed hmm r) rfl

theorem IncrementalIsOneShot.restarts (hsame : IncrementalIsOneShot h p)
    (hinj : Function.Injective h.cachingHashFn)
    (hmm : NonOverlapping p.mmFeatures) (hin : InsidePrompt p) : RestartsAtOpenItem h p := by
  rw [← grownKeys_eq_iff hmm hin]
  intro j
  -- grow the request until block `j` is full; the digests there determine the keys
  let r := (p.init (some h)).appendOutputTokenIds (some h)
    (List.replicate ((j + 1) * h.blockSize) 0)
  have hr : Lifetime h p r := Lifetime.init.append _
  have hlong : (j + 1) * h.blockSize ≤ r.numTokens := by
    simp only [r, Request.numTokens, Request.appendOutputTokenIds, Request.updateBlockHashes,
      List.length_append, List.length_replicate]
    exact Nat.le_add_left _ _
  have hj : j < r.blockHashes.length := by
    rw [hr.hashed hmm hin, List.length_map, List.length_range]
    exact (Nat.le_div_iff_mul_le h.blockSize_pos).mpr hlong
  have hagree : r.AgreeAt ((p.followUp r).init (some h)) j :=
    ⟨_, List.getElem?_eq_getElem hj, by rw [← hsame r hr, List.getElem?_eq_getElem hj]⟩
  have hboth := ((hr.hashed hmm hin).agreeAt_iff hinj (followUp_hashed hmm r)).mp hagree
  exact hboth.2.2.2 j (Nat.le_refl j)

/-- Incremental hashing is one-shot hashing exactly when the restart at the last item is right. -/
theorem incrementalIsOneShot_iff (hmm : NonOverlapping p.mmFeatures) (hin : InsidePrompt p) :
    (RestartsAtOpenItem h p → IncrementalIsOneShot h p) ∧
      (Function.Injective h.cachingHashFn → IncrementalIsOneShot h p → RestartsAtOpenItem h p) :=
  ⟨fun hcond => hcond.isOneShot hmm hin, fun hinj hsame => hsame.restarts hinj hmm hin⟩

/-- A prompt of one block of four whose item `a` covers the first `length` tokens. -/
def leadingItem (length : Nat) : RequestParams :=
  { requestId := "p", promptTokenIds := some [0, 0, 0, 0],
    mmFeatures := [⟨"a", ⟨0, length, none⟩⟩] }

theorem incrementalIsOneShot_item_inside_block :
    IncrementalIsOneShot fourTokenHasher (leadingItem 3) :=
  (incrementalIsOneShot_iff (by decide) (by decide)).1 (by decide)

/-- An item that ends exactly at the boundary keys the next, generated block once more. -/
theorem not_incrementalIsOneShot_item_to_boundary :
    ¬ IncrementalIsOneShot fourTokenHasher (leadingItem 4) := by
  intro hsame
  have hcond := hsame.restarts (BlockHasher.coded_injective 4 (by decide)) (by decide) (by decide)
  exact absurd hcond (by decide)

end Vllm
