import Mathlib.Data.List.Range
import Vllm.BlockHash
import Vllm.Lib.PrefixCode

namespace Vllm

open HashChain

namespace BlockHasher

def absorb (h : BlockHasher) (parent : BlockHash) (m : List Token × ExtraKeys) : BlockHash :=
  h.cachingHashFn (parent, m.1, m.2)

theorem absorb_injective2 {h : BlockHasher} (hinj : Function.Injective h.cachingHashFn) :
    Function.Injective2 h.absorb := by
  intro p q m n hpq
  have := hinj hpq
  simp only [Prod.mk.injEq] at this
  exact ⟨this.1, Prod.ext this.2.1 this.2.2⟩

theorem absorb_ne_nil (h : BlockHasher) (p : BlockHash) (m : List Token × ExtraKeys) :
    h.absorb p m ≠ [] := h.digest_ne_nil _

theorem link_ne_nil (h : BlockHasher) (m : Nat → List Token × ExtraKeys) (i : Nat) :
    link h.absorb h.noneHash m i ≠ [] := by
  cases i <;> exact h.absorb_ne_nil _ _

end BlockHasher

def ExtraKey.toSum : ExtraKey → String ⊕ Bytes
  | .str s => .inl s
  | .bytes b => .inr b

def ExtraKey.prefixCode : PrefixCode ExtraKey :=
  (PrefixCode.string.sum PrefixCode.byte.list).comap toSum fun x y h => by
    cases x <;> cases y <;> simp_all [toSum]

def hashInputCode : PrefixCode HashInput :=
  PrefixCode.byte.list.prod (PrefixCode.int.list.prod ExtraKey.prefixCode.list.option)

theorem hashInputCode_ne (x : HashInput) : hashInputCode.code x ≠ [] ∧
    hashInputCode.code x ≠ [2] := by
  obtain ⟨parent, toks, keys⟩ := x
  have hhead : (hashInputCode.code (parent, toks, keys)).head? = some 0 ∨
      (hashInputCode.code (parent, toks, keys)).head? = some 1 := by
    cases parent with
    | nil => exact Or.inl rfl
    | cons b parent => exact Or.inr rfl
  constructor <;> intro hx <;> simp [hx] at hhead

def BlockHasher.coded (blockSize : Nat) (hpos : 0 < blockSize) : BlockHasher where
  blockSize := blockSize
  blockSize_pos := hpos
  cachingHashFn := hashInputCode.code
  digest_ne_nil x := (hashInputCode_ne x).1
  noneHash := [2]
  sha256 := PrefixCode.byte.list.code

theorem BlockHasher.coded_injective (blockSize : Nat) (hpos : 0 < blockSize) :
    Function.Injective (BlockHasher.coded blockSize hpos).cachingHashFn :=
  hashInputCode.code_injective

theorem BlockHasher.coded_ne_noneHash (blockSize : Nat) (hpos : 0 < blockSize) (x : HashInput) :
    (BlockHasher.coded blockSize hpos).cachingHashFn x ≠
      (BlockHasher.coded blockSize hpos).noneHash :=
  (hashInputCode_ne x).2

def parentAt (h : BlockHasher) (m : Nat → List Token × ExtraKeys) : Nat → Option BlockHash
  | 0 => none
  | b + 1 => some (link h.absorb h.noneHash m b)

theorem hashBlockTokens_parentAt (h : BlockHasher) (m : Nat → List Token × ExtraKeys) (b : Nat) :
    hashBlockTokens h (parentAt h m b) (m b).1 (m b).2 = link h.absorb h.noneHash m b := by
  cases b with
  | zero => rfl
  | succ b =>
    simp only [hashBlockTokens, parentAt, if_neg (h.link_ne_nil m b)]
    rfl

namespace Request

def blockAt (r : Request) (blockSize j : Nat) : List Token :=
  (r.allTokenIds.take (j * blockSize + blockSize)).drop (j * blockSize)

def messages (r : Request) (blockSize : Nat) (keys : Nat → ExtraKeys) (j : Nat) :
    List Token × ExtraKeys :=
  (r.blockAt blockSize j, keys j)

def chain (h : BlockHasher) (r : Request) (keys : Nat → ExtraKeys) (i : Nat) : BlockHash :=
  link h.absorb h.noneHash (r.messages h.blockSize keys) i

end Request

theorem hashBlocksFrom_eq (h : BlockHasher) (r : Request) (keys : Nat → ExtraKeys)
    (idx : Nat → Int) {fuel b : Nat} (hfuel : r.numTokens / h.blockSize ≤ b + fuel)
    (hgen : ∀ j, b ≤ j → j < r.numTokens / h.blockSize →
      generateBlockHashExtraKeys h.sha256 r (j * h.blockSize) (j * h.blockSize + h.blockSize) (idx j) =
        (keys j, idx (j + 1))) :
    hashBlocksFrom h r fuel (b * h.blockSize)
        (parentAt h (r.messages h.blockSize keys) b) (idx b) =
      (List.range' b (r.numTokens / h.blockSize - b)).map (r.chain h keys) := by
  have hpos := h.blockSize_pos
  induction fuel generalizing b with
  | zero =>
    rw [Nat.sub_eq_zero_of_le (by omega)]
    rfl
  | succ fuel ih =>
    by_cases hb : b < r.numTokens / h.blockSize
    · have hfull : ¬ b * h.blockSize + h.blockSize > r.numTokens := by
        have := (Nat.le_div_iff_mul_le hpos).mp hb
        rw [Nat.succ_mul] at this
        omega
      have hlen : r.numTokens / h.blockSize - b = (r.numTokens / h.blockSize - (b + 1)) + 1 := by
        omega
      have htail := ih (b := b + 1) (by omega) fun j hj => hgen j (by omega)
      rw [Nat.add_mul, Nat.one_mul] at htail
      simp only [hashBlocksFrom, if_neg hfull, hgen b (Nat.le_refl b) hb]
      rw [hlen, List.range'_succ, List.map_cons, ← htail]
      have hhead := hashBlockTokens_parentAt h (r.messages h.blockSize keys) b
      simp only [Request.messages, Request.blockAt] at hhead
      rw [hhead]
      rfl
    · have hstop : b * h.blockSize + h.blockSize > r.numTokens := by
        have := mt (Nat.le_div_iff_mul_le hpos).mpr hb
        rw [Nat.succ_mul] at this
        omega
      rw [Nat.sub_eq_zero_of_le (Nat.not_lt.mp hb)]
      simp only [hashBlocksFrom, if_pos hstop, List.range'_zero, List.map_nil]

def Request.Hashed (h : BlockHasher) (r : Request) (keys : Nat → ExtraKeys) : Prop :=
  r.blockHashes = (List.range (r.numTokens / h.blockSize)).map (r.chain h keys)

theorem hashed_updateBlockHashes (h : BlockHasher) (r : Request) (keys : Nat → ExtraKeys)
    (idx : Nat → Int) {b : Nat} (hb : b ≤ r.numTokens / h.blockSize)
    (hold : r.blockHashes = (List.range b).map (r.chain h keys))
    (hidx : idx b = if b = 0 then 0 else -1)
    (hgen : ∀ j, b ≤ j → j < r.numTokens / h.blockSize →
      generateBlockHashExtraKeys h.sha256 r (j * h.blockSize) (j * h.blockSize + h.blockSize) (idx j) =
        (keys j, idx (j + 1))) :
    (r.updateBlockHashes (some h)).Hashed h keys := by
  have hpos := h.blockSize_pos
  have hlen : r.blockHashes.length = b := by simp [hold]
  have hlast : r.blockHashes.getLast? = parentAt h (r.messages h.blockSize keys) b := by
    cases b with
    | zero => simp [hold, parentAt]
    | succ b => simp [hold, List.range_succ, parentAt, Request.chain]
  have hstart : (if b * h.blockSize > 0 then (-1 : Int) else 0) = idx b := by
    rw [hidx]
    cases b with
    | zero => simp
    | succ b => simp [hpos]
  have hnew : requestBlockHasher h r =
      (List.range' b (r.numTokens / h.blockSize - b)).map (r.chain h keys) := by
    simp only [requestBlockHasher, hlen, hlast, hstart]
    split
    · rename_i hstop
      have : r.numTokens / h.blockSize < b + 1 := by
        apply (Nat.div_lt_iff_lt_mul hpos).mpr
        rw [Nat.add_mul, Nat.one_mul]
        exact hstop
      rw [Nat.sub_eq_zero_of_le (by omega)]
      rfl
    · apply hashBlocksFrom_eq h r keys idx _ hgen
      have := Nat.div_le_self r.numTokens h.blockSize
      omega
  show r.blockHashes ++ requestBlockHasher h r = _
  have hsplit : List.range' 0 b ++ List.range' b (r.numTokens / h.blockSize - b) =
      List.range' 0 (r.numTokens / h.blockSize) := by
    have := List.range'_append_1 (s := 0) (m := b) (n := r.numTokens / h.blockSize - b)
    rwa [Nat.zero_add, Nat.add_sub_cancel' hb] at this
  rw [hnew, hold, ← List.map_append, List.range_eq_range', hsplit, ← List.range_eq_range']
  rfl

/-! The running index of `_gen_mm_extra_hash_keys`. -/

namespace MultiModalFeatureSpec

def passed (s : Nat) (f : MultiModalFeatureSpec) : Bool := f.offset < s && f.stop ≤ s

def touches (s e : Nat) (f : MultiModalFeatureSpec) : Bool := f.offset < e && !f.passed s

theorem passed_iff {s : Nat} {f : MultiModalFeatureSpec} :
    f.passed s = true ↔ f.offset < s ∧ f.stop ≤ s := by
  simp [passed]

theorem not_passed_iff {s : Nat} {f : MultiModalFeatureSpec} :
    f.passed s = false ↔ s ≤ f.offset ∨ s < f.stop := by
  rw [← Bool.not_eq_true, passed_iff]
  omega

def NonOverlapping (fs : List MultiModalFeatureSpec) : Prop :=
  fs.Pairwise fun f g => f.stop ≤ g.offset

instance (fs : List MultiModalFeatureSpec) : Decidable (NonOverlapping fs) :=
  inferInstanceAs (Decidable (fs.Pairwise fun f g => f.stop ≤ g.offset))

theorem offset_le_stop (f : MultiModalFeatureSpec) : f.offset ≤ f.stop :=
  Nat.le_add_right _ _

theorem filter_touches_eq_nil {s e : Nat} {f : MultiModalFeatureSpec}
    {fs : List MultiModalFeatureSpec} (hf : ∀ g ∈ fs, f.stop ≤ g.offset) (he : e ≤ f.stop) :
    fs.filter (touches s e) = [] := by
  rw [List.filter_eq_nil_iff]
  intro g hg
  have := hf g hg
  simp only [touches, Bool.and_eq_true, decide_eq_true_eq]
  omega

theorem filter_passed_eq_nil {e : Nat} {f : MultiModalFeatureSpec}
    {fs : List MultiModalFeatureSpec} (hf : ∀ g ∈ fs, f.stop ≤ g.offset) (he : e ≤ f.stop) :
    fs.filter (passed e) = [] := by
  rw [List.filter_eq_nil_iff]
  intro g hg
  have := hf g hg
  rw [passed_iff]
  omega

end MultiModalFeatureSpec

open MultiModalFeatureSpec

def keysOf (fs : List MultiModalFeatureSpec) : List ExtraKey :=
  fs.map fun f => .str f.identifier

theorem genMmKeysFrom_eq {s e : Nat} (fs : List MultiModalFeatureSpec) (i : Nat)
    (hfs : NonOverlapping fs) (hs : ∀ f ∈ fs, f.passed s = false) :
    genMmKeysFrom s e fs i = (keysOf (fs.filter (touches s e)), i + (fs.filter (passed e)).length) := by
  induction fs generalizing i with
  | nil => simp [genMmKeysFrom, keysOf]
  | cons f fs ih =>
    obtain ⟨hf, htail⟩ := List.pairwise_cons.mp hfs
    have hfs' := hs f List.mem_cons_self
    have hstop := f.offset_le_stop
    have ih := ih (i + 1) htail fun g hg => hs g (List.mem_cons_of_mem f hg)
    simp only [genMmKeysFrom]
    by_cases hreach : e > f.offset
    · have hold : ¬ s > f.offset + f.length := by
        rw [not_passed_iff] at hfs'
        simp only [stop] at hstop hfs'
        omega
      rw [if_pos hreach, if_neg hold]
      have htouch : f.touches s e = true := by simp [touches, hfs', hreach]
      by_cases hend : e ≥ f.offset + f.length
      · have hpass : f.passed e = true := by simp [passed, stop, hreach, hend]
        rw [if_pos hend, ih]
        simp only [List.filter_cons, htouch, hpass, if_true, keysOf, List.map_cons,
          List.length_cons, Prod.mk.injEq, true_and]
        omega
      · have hpass : f.passed e = false := by
          rw [not_passed_iff]
          simp only [stop]
          omega
        have he : e ≤ f.stop := by simp only [stop]; omega
        rw [if_neg hend]
        simp [htouch, hpass, filter_touches_eq_nil hf he,
          filter_passed_eq_nil hf he, keysOf]
    · have htouch : f.touches s e = false := by simp [touches, hreach]
      have hpass : f.passed e = false := by simp [passed, hreach]
      have he : e ≤ f.stop := by omega
      rw [if_neg hreach]
      simp [htouch, hpass, filter_touches_eq_nil hf he,
        filter_passed_eq_nil hf he, keysOf]

theorem drop_passed {s : Nat} {fs : List MultiModalFeatureSpec} (hfs : NonOverlapping fs) :
    fs.drop (fs.filter (passed s)).length = fs.filter fun f => !f.passed s := by
  induction fs with
  | nil => rfl
  | cons f fs ih =>
    obtain ⟨hf, htail⟩ := List.pairwise_cons.mp hfs
    by_cases hp : f.passed s = true
    · simp [hp, ih htail]
    · have hrest : ∀ g ∈ fs, g.passed s = false := by
        intro g hg
        have := hf g hg
        have hg' := g.offset_le_stop
        have hf' := f.offset_le_stop
        rw [passed_iff] at hp
        rw [not_passed_iff]
        omega
      have h0 : fs.filter (passed s) = [] := List.filter_eq_nil_iff.mpr (by simpa using hrest)
      have h1 : (fs.filter fun f => !f.passed s) = fs :=
        List.filter_eq_self.mpr (by simpa using hrest)
      simp [hp, h0, h1]

theorem passed_of_last {s : Nat} {fs : List MultiModalFeatureSpec} {last : MultiModalFeatureSpec}
    (hfs : NonOverlapping fs) (hlast : fs.getLast? = some last) (hs : last.stop < s) :
    ∀ f ∈ fs, f.passed s = true := by
  obtain ⟨init, rfl⟩ := List.getLast?_eq_some_iff.mp hlast
  intro f hf
  have hstop := f.offset_le_stop
  have hle : f.stop ≤ last.stop := by
    rcases List.mem_append.mp hf with hf | hf
    · have := (List.pairwise_append.mp hfs).2.2 f hf last (by simp)
      exact Nat.le_trans this last.offset_le_stop
    · rw [List.mem_singleton.mp hf]
  rw [passed_iff]
  omega

theorem genMmExtraHashKeys_carried {r : Request} (hr : NonOverlapping r.mmFeatures) {s e : Nat}
    (hse : s ≤ e) :
    genMmExtraHashKeys r s e (r.mmFeatures.filter (passed s)).length =
      (keysOf (r.mmFeatures.filter (touches s e)),
        ((r.mmFeatures.filter (passed e)).length : Int)) := by
  unfold genMmExtraHashKeys
  split
  · rename_i hnil
    rw [List.getLast?_eq_none_iff] at hnil
    simp [hnil, keysOf]
  · rename_i last hlast
    split
    · rename_i hs
      have hall := passed_of_last hr hlast hs
      have hall' := passed_of_last hr hlast (Nat.lt_of_lt_of_le hs hse)
      have htouch : r.mmFeatures.filter (touches s e) = [] := by
        rw [List.filter_eq_nil_iff]
        intro f hf
        simp [touches, hall f hf]
      rw [htouch, List.filter_eq_self.mpr hall, List.filter_eq_self.mpr hall']
      rfl
    · have hidx : ¬ ((r.mmFeatures.filter (passed s)).length : Int) < 0 := by omega
      simp only [if_neg hidx, Int.toNat_natCast]
      rw [drop_passed hr, genMmKeysFrom_eq _ _ (hr.filter _) (by simp)]
      have hkeys : (r.mmFeatures.filter fun f => !f.passed s).filter (touches s e) =
          r.mmFeatures.filter (touches s e) := by
        rw [List.filter_filter]
        congr 1
        funext f
        cases hp : f.passed s <;> simp [touches, hp]
      have hcount : (r.mmFeatures.filter (passed s)).length +
          ((r.mmFeatures.filter fun f => !f.passed s).filter (passed e)).length =
          (r.mmFeatures.filter (passed e)).length := by
        have hmono : ∀ f : MultiModalFeatureSpec, f.passed s = true → f.passed e = true := by
          intro f hf
          rw [passed_iff] at hf ⊢
          omega
        have hsplit : r.mmFeatures.filter (passed s) =
            (r.mmFeatures.filter (passed e)).filter (passed s) := by
          rw [List.filter_filter]
          congr 1
          funext f
          cases hp : f.passed s <;> simp [hp, hmono f]
        rw [hsplit, List.filter_filter, List.filter_filter]
        have := List.length_eq_length_filter_add (l := r.mmFeatures.filter (passed e)) (passed s)
        rw [List.filter_filter, List.filter_filter] at this
        rw [this]
        congr 3
        funext f
        exact Bool.and_comm _ _
      rw [hkeys, hcount]

def packKeys (keys : List ExtraKey) : ExtraKeys := if keys = [] then none else some keys

theorem packKeys_injective : Function.Injective packKeys := by
  intro a b h
  unfold packKeys at h
  split at h <;> split at h <;> simp_all

namespace Request

def keysWith (h : BlockHasher) (r : Request) (mm : List ExtraKey) (j : Nat) : ExtraKeys :=
  packKeys (genLoraExtraHashKeys r ++ mm ++ genCacheSaltKeys r (j * h.blockSize) ++
    genPromptEmbedsExtraHashKeys h.sha256 r (j * h.blockSize) (j * h.blockSize + h.blockSize))

def itemsIn (r : Request) (s e : Nat) : List MultiModalFeatureSpec :=
  r.mmFeatures.filter (touches s e)

def extraKeysAt (h : BlockHasher) (r : Request) (j : Nat) : ExtraKeys :=
  r.keysWith h (keysOf (r.itemsIn (j * h.blockSize) (j * h.blockSize + h.blockSize))) j

end Request

theorem generateBlockHashExtraKeys_eq (h : BlockHasher) (r : Request) (j : Nat) (i : Int) :
    generateBlockHashExtraKeys h.sha256 r (j * h.blockSize) (j * h.blockSize + h.blockSize) i =
      (r.keysWith h
        (genMmExtraHashKeys r (j * h.blockSize) (j * h.blockSize + h.blockSize) i).1 j,
        (genMmExtraHashKeys r (j * h.blockSize) (j * h.blockSize + h.blockSize) i).2) :=
  rfl

theorem hashed_of_fresh (h : BlockHasher) {r : Request} (hr : NonOverlapping r.mmFeatures)
    (hnew : r.blockHashes = []) : (r.updateBlockHashes (some h)).Hashed h (r.extraKeysAt h) := by
  let idx : Nat → Int := fun j => (r.mmFeatures.filter (passed (j * h.blockSize))).length
  have hzero : r.mmFeatures.filter (passed 0) = [] := by
    rw [List.filter_eq_nil_iff]
    intro f _
    simp [passed]
  apply hashed_updateBlockHashes h r (r.extraKeysAt h) idx (Nat.zero_le _)
  · simpa using hnew
  · simp [idx, hzero]
  · intro j _ _
    rw [generateBlockHashExtraKeys_eq, genMmExtraHashKeys_carried hr (Nat.le_add_right _ _)]
    simp only [idx, Nat.succ_mul]
    rfl

/-- A request constructed from `p` and extended by generated tokens in any grouping. -/
inductive Lifetime (h : BlockHasher) (p : RequestParams) : Request → Prop
  | init : Lifetime h p (p.init (some h))
  | append {r : Request} (tokenIds : List Token) :
      Lifetime h p r → Lifetime h p (r.appendOutputTokenIds (some h) tokenIds)

structure Request.SameKeys (r r' : Request) : Prop where
  lora : r.loraRequest = r'.loraRequest
  mm : r.mmFeatures = r'.mmFeatures
  salt : r.cacheSalt = r'.cacheSalt
  embeds : r.promptEmbeds = r'.promptEmbeds

theorem Lifetime.sameKeys {h : BlockHasher} {p : RequestParams} {r : Request}
    (hr : Lifetime h p r) : r.SameKeys p.blank := by
  induction hr with
  | init => exact ⟨rfl, rfl, rfl, rfl⟩
  | append _ _ ih => exact ⟨ih.lora, ih.mm, ih.salt, ih.embeds⟩

theorem Request.SameKeys.keysWith {r r' : Request} (hs : r.SameKeys r') (h : BlockHasher)
    (mm : List ExtraKey) (j : Nat) : r.keysWith h mm j = r'.keysWith h mm j := by
  unfold Request.keysWith genLoraExtraHashKeys genCacheSaltKeys genPromptEmbedsExtraHashKeys
  rw [hs.lora, hs.salt, hs.embeds]

theorem Request.SameKeys.extraKeysAt {r r' : Request} (hs : r.SameKeys r') (h : BlockHasher)
    (j : Nat) : r.extraKeysAt h j = r'.extraKeysAt h j := by
  unfold Request.extraKeysAt Request.itemsIn
  rw [hs.keysWith, hs.mm]

theorem Lifetime.numTokens_le {h : BlockHasher} {p : RequestParams} {r : Request}
    (hr : Lifetime h p r) : p.blank.numTokens ≤ r.numTokens := by
  induction hr with
  | init => exact Nat.le_refl _
  | append toks hr ih =>
    refine Nat.le_trans ih ?_
    simp [Request.numTokens, Request.appendOutputTokenIds, Request.updateBlockHashes]

def lastItemKeys (r : Request) (s : Nat) : List ExtraKey :=
  match r.mmFeatures.getLast? with
  | none => []
  | some last => if last.stop < s then [] else [.str last.identifier]

def grownKeys (h : BlockHasher) (p : RequestParams) (j : Nat) : ExtraKeys :=
  if 0 < j ∧ j = p.blank.numTokens / h.blockSize then
    p.blank.keysWith h (lastItemKeys p.blank (j * h.blockSize)) j
  else p.blank.extraKeysAt h j

def InsidePrompt (p : RequestParams) : Prop :=
  ∀ f ∈ p.mmFeatures, f.stop ≤ p.blank.numTokens

instance (p : RequestParams) : Decidable (InsidePrompt p) :=
  inferInstanceAs (Decidable (∀ f ∈ p.mmFeatures, f.stop ≤ p.blank.numTokens))

theorem genMmExtraHashKeys_last_lt {r : Request} {s e : Nat} {i : Int}
    (hs : ∀ f ∈ r.mmFeatures, f.stop < s) : genMmExtraHashKeys r s e i = ([], i) := by
  unfold genMmExtraHashKeys
  split
  · rfl
  · rename_i last hlast
    have hstop : last.offset + last.length < s := hs last (List.mem_of_getLast? hlast)
    rw [if_pos hstop]

theorem genMmExtraHashKeys_neg_one {r : Request} {s e : Nat}
    (he : ∀ f ∈ r.mmFeatures, f.stop < e) :
    (genMmExtraHashKeys r s e (-1)).1 = lastItemKeys r s := by
  cases hlast : r.mmFeatures.getLast? with
  | none => simp only [genMmExtraHashKeys, lastItemKeys, hlast]
  | some last =>
    obtain ⟨front, hfront⟩ := List.getLast?_eq_some_iff.mp hlast
    have hstop := he last (List.mem_of_getLast? hlast)
    have hle := last.offset_le_stop
    have hidx : ((r.mmFeatures.length : Int) + -1).toNat = front.length := by
      rw [hfront, List.length_append, List.length_singleton]
      omega
    have hneg : (-1 : Int) < 0 := by decide
    have hdrop : r.mmFeatures.drop front.length = [last] := by rw [hfront, List.drop_left]
    have hoff : e > last.offset := by omega
    have hend : e ≥ last.offset + last.length := Nat.le_of_lt hstop
    simp only [genMmExtraHashKeys, lastItemKeys, hlast, if_pos hneg, hidx, hdrop]
    by_cases hs : last.stop < s
    · have hs' : last.offset + last.length < s := hs
      rw [if_pos hs', if_pos hs]
    · have hs' : ¬ last.offset + last.length < s := hs
      rw [if_neg hs', if_neg hs]
      simp only [genMmKeysFrom, if_pos hoff, if_neg hs', if_pos hend]

theorem lastItemKeys_eq_nil {r : Request} {s : Nat} (hs : ∀ f ∈ r.mmFeatures, f.stop < s) :
    lastItemKeys r s = [] := by
  unfold lastItemKeys
  split
  · rfl
  · rename_i last hlast
    rw [if_pos (hs last (List.mem_of_getLast? hlast))]

theorem Request.itemsIn_eq_nil {r : Request} {s e : Nat} (hs : ∀ f ∈ r.mmFeatures, f.stop < s) :
    r.itemsIn s e = [] := by
  unfold Request.itemsIn
  rw [List.filter_eq_nil_iff]
  intro f hf
  have hlt := hs f hf
  have hle := f.offset_le_stop
  have hp : f.passed s = true := passed_iff.mpr ⟨by omega, by omega⟩
  simp [touches, hp]

theorem Request.Hashed.congr {h : BlockHasher} {r : Request} {keys keys' : Nat → ExtraKeys}
    (hr : r.Hashed h keys) (hk : ∀ j < r.numTokens / h.blockSize, keys j = keys' j) :
    r.Hashed h keys' := by
  unfold Request.Hashed at hr ⊢
  rw [hr]
  apply List.map_congr_left
  intro i hi
  apply link_congr
  intro j hj
  rw [List.mem_range] at hi
  simp only [Request.messages, hk j (Nat.lt_of_le_of_lt hj hi)]

theorem Request.chain_append {h : BlockHasher} {r r' : Request} {keys : Nat → ExtraKeys}
    {toks : List Token} (htoks : r'.allTokenIds = r.allTokenIds ++ toks) {i : Nat}
    (hi : i < r.numTokens / h.blockSize) : r'.chain h keys i = r.chain h keys i := by
  apply link_congr
  intro j hj
  have hfull : j * h.blockSize + h.blockSize ≤ r.allTokenIds.length := by
    have := (Nat.le_div_iff_mul_le h.blockSize_pos).mp (Nat.lt_of_le_of_lt hj hi)
    rwa [Nat.succ_mul] at this
  simp only [Request.messages, Request.blockAt, htoks, List.take_append_of_le_length hfull]

theorem Lifetime.hashed {h : BlockHasher} {p : RequestParams} {r : Request}
    (hr : Lifetime h p r) (hmm : NonOverlapping p.mmFeatures) (hin : InsidePrompt p) :
    r.Hashed h (grownKeys h p) := by
  have hpos := h.blockSize_pos
  induction hr with
  | init =>
    apply (hashed_of_fresh h (r := p.blank) hmm rfl).congr
    intro j hj
    have hj : j < p.blank.numTokens / h.blockSize := hj
    rw [grownKeys, if_neg (by omega)]
  | @append r toks hr ih =>
    let r' : Request :=
      { r with
        outputTokenIds := r.outputTokenIds ++ toks
        allTokenIds := r.allTokenIds ++ toks }
    show (r'.updateBlockHashes (some h)).Hashed h (grownKeys h p)
    have hsame : r'.SameKeys p.blank := ⟨hr.sameKeys.1, hr.sameKeys.2, hr.sameKeys.3, hr.sameKeys.4⟩
    have hle := Nat.div_le_div_right (c := h.blockSize) hr.numTokens_le
    have hmono : r.numTokens / h.blockSize ≤ r'.numTokens / h.blockSize := by
      apply Nat.div_le_div_right
      simp [r', Request.numTokens]
    have hold : r'.blockHashes =
        (List.range (r.numTokens / h.blockSize)).map (r'.chain h (grownKeys h p)) := by
      rw [show r'.blockHashes = r.blockHashes from rfl, ih]
      apply List.map_congr_left
      intro i hi
      exact (Request.chain_append rfl (List.mem_range.mp hi)).symm
    -- every item ends inside the prompt, so before the end of its last, partial block
    have hstop : ∀ j, p.blank.numTokens / h.blockSize < j →
        ∀ f ∈ p.mmFeatures, f.stop < j * h.blockSize := by
      intro j hj f hf
      refine Nat.lt_of_le_of_lt (hin f hf) ?_
      exact (Nat.div_lt_iff_lt_mul hpos).mp hj
    by_cases hb : r.numTokens / h.blockSize = 0
    · let idx : Nat → Int := fun j => (r'.mmFeatures.filter (passed (j * h.blockSize))).length
      refine hashed_updateBlockHashes h r' _ idx hmono hold ?_ ?_
      · have hzero : r'.mmFeatures.filter (passed 0) = [] := by
          rw [List.filter_eq_nil_iff]
          intro f _
          simp [passed]
        simp [idx, hb, hzero]
      · intro j _ _
        have hr'mm : NonOverlapping r'.mmFeatures := by rw [hsame.mm]; exact hmm
        rw [generateBlockHashExtraKeys_eq, genMmExtraHashKeys_carried hr'mm (Nat.le_add_right _ _),
          grownKeys, if_neg (by omega), ← hsame.extraKeysAt]
        simp only [idx, Nat.succ_mul]
        rfl
    · let b := r.numTokens / h.blockSize
      let next := (genMmExtraHashKeys r' (b * h.blockSize) (b * h.blockSize + h.blockSize) (-1)).2
      refine hashed_updateBlockHashes h r' _ (fun j => if j ≤ b then -1 else next) hmono hold ?_ ?_
      · simp [b, hb]
      · intro j hj _
        rw [generateBlockHashExtraKeys_eq]
        rcases Nat.eq_or_lt_of_le hj with rfl | hj
        · have hend : ∀ f ∈ r'.mmFeatures, f.stop < b * h.blockSize + h.blockSize := by
            rw [hsame.mm, ← Nat.succ_mul]
            exact hstop (b + 1) (Nat.lt_succ_of_le hle)
          have hkeys := genMmExtraHashKeys_neg_one (s := b * h.blockSize) hend
          simp only [b, Nat.le_refl, if_true, Nat.not_succ_le_self, if_false] at hkeys ⊢
          rw [hkeys, hsame.keysWith, grownKeys]
          have hlast : lastItemKeys r' (b * h.blockSize) = lastItemKeys p.blank (b * h.blockSize) := by
            unfold lastItemKeys
            rw [hsame.mm]
          split
          · rw [hlast]
          · rename_i hne
            have hlt : ∀ f ∈ p.blank.mmFeatures, f.stop < b * h.blockSize :=
              hstop b (Nat.lt_of_le_of_ne hle fun heq => hne ⟨Nat.pos_of_ne_zero hb, heq.symm⟩)
            rw [hlast, lastItemKeys_eq_nil hlt, Request.extraKeysAt, Request.itemsIn_eq_nil hlt]
            rfl
        · have hlt : ∀ f ∈ p.blank.mmFeatures, f.stop < j * h.blockSize := hstop j (by omega)
          have hlt' : ∀ f ∈ r'.mmFeatures, f.stop < j * h.blockSize := by rw [hsame.mm]; exact hlt
          rw [if_neg (by omega), if_neg (by omega), genMmExtraHashKeys_last_lt hlt', grownKeys,
            if_neg (by omega), hsame.keysWith, Request.extraKeysAt, Request.itemsIn_eq_nil hlt]
          rfl

end Vllm
