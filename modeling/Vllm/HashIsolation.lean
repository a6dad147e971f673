import Vllm.BlockHashLaws

namespace Vllm

open HashChain MultiModalFeatureSpec

theorem Request.blockAt_of_take_eq {a b : Request} {bs i j : Nat} (hj : j ≤ i)
    (h : a.allTokenIds.take (i * bs + bs) = b.allTokenIds.take (i * bs + bs)) :
    a.blockAt bs j = b.blockAt bs j := by
  have hle : j * bs + bs ≤ i * bs + bs := Nat.add_le_add_right (Nat.mul_le_mul_right bs hj) bs
  have := congrArg (List.take (j * bs + bs)) h
  rw [List.take_take, List.take_take, Nat.min_eq_left hle] at this
  simp only [Request.blockAt, this]

theorem Request.take_eq_of_blockAt {a b : Request} {bs i : Nat}
    (h : ∀ j ≤ i, a.blockAt bs j = b.blockAt bs j) :
    a.allTokenIds.take (i * bs + bs) = b.allTokenIds.take (i * bs + bs) := by
  induction i with
  | zero => simpa [Request.blockAt] using h 0 (Nat.le_refl 0)
  | succ i ih =>
    have hfront := ih fun j hj => h j (Nat.le_succ_of_le hj)
    have hblock := h (i + 1) (Nat.le_refl _)
    simp only [Request.blockAt, Nat.succ_mul] at hblock ⊢
    have hsplit : ∀ l : List Token, l.take (i * bs + bs + bs) =
        l.take (i * bs + bs) ++ (l.take (i * bs + bs + bs)).drop (i * bs + bs) := by
      intro l
      conv_lhs => rw [← List.take_append_drop (i * bs + bs) (l.take (i * bs + bs + bs))]
      rw [List.take_take, Nat.min_eq_left (Nat.le_add_right _ _)]
    rw [hsplit a.allTokenIds, hsplit b.allTokenIds, hfront, hblock]

def Request.AgreeAt (a b : Request) (i : Nat) : Prop :=
  ∃ x, a.blockHashes[i]? = some x ∧ b.blockHashes[i]? = some x

theorem Request.Hashed.agreeAt_iff {h : BlockHasher} (hinj : Function.Injective h.cachingHashFn)
    {a b : Request} {keys keys' : Nat → ExtraKeys} (ha : a.Hashed h keys) (hb : b.Hashed h keys')
    {i : Nat} : a.AgreeAt b i ↔
      i < a.numTokens / h.blockSize ∧ i < b.numTokens / h.blockSize ∧
        a.allTokenIds.take (i * h.blockSize + h.blockSize) =
          b.allTokenIds.take (i * h.blockSize + h.blockSize) ∧
        ∀ j ≤ i, keys j = keys' j := by
  have hlink := @link_eq_iff _ _ _ (h.absorb_injective2 hinj) h.noneHash
    (a.messages h.blockSize keys) (b.messages h.blockSize keys') i
  have hget : ∀ {r : Request} {k : Nat → ExtraKeys} {x : BlockHash}, r.Hashed h k →
      (r.blockHashes[i]? = some x ↔ i < r.numTokens / h.blockSize ∧ r.chain h k i = x) := by
    intro r k x hr
    rw [hr, List.getElem?_map]
    by_cases hi : i < r.numTokens / h.blockSize <;> simp [hi]
  constructor
  · rintro ⟨x, hax, hbx⟩
    obtain ⟨hia, hax⟩ := (hget ha).mp hax
    obtain ⟨hib, hbx⟩ := (hget hb).mp hbx
    have hmsg := hlink.mp (hax.trans hbx.symm)
    refine ⟨hia, hib, ?_, fun j hj => congrArg Prod.snd (hmsg j hj)⟩
    exact Request.take_eq_of_blockAt fun j hj => congrArg Prod.fst (hmsg j hj)
  · rintro ⟨hia, hib, htake, hkeys⟩
    refine ⟨a.chain h keys i, (hget ha).mpr ⟨hia, rfl⟩, (hget hb).mpr ⟨hib, ?_⟩⟩
    refine (hlink.mpr fun j hj => ?_).symm
    exact Prod.ext (Request.blockAt_of_take_eq hj htake) (hkeys j hj)

/-! Text requests: LoRA names, salts and prompt embeds. -/

section Text

variable {h : BlockHasher}

def Request.loraName (r : Request) : Option String := r.loraRequest.map LoRARequest.loraName

def Request.embedKeysAt (h : BlockHasher) (r : Request) (j : Nat) : List ExtraKey :=
  genPromptEmbedsExtraHashKeys h.sha256 r (j * h.blockSize) (j * h.blockSize + h.blockSize)

/-- Requests that agree at a block have the same tokens, LoRA name, salt and embeds up to it. -/
def Isolated (h : BlockHasher) (a b : Request) : Prop :=
  ∀ i, a.AgreeAt b i →
    a.allTokenIds.take (i * h.blockSize + h.blockSize) =
        b.allTokenIds.take (i * h.blockSize + h.blockSize) ∧
      a.loraName = b.loraName ∧ a.cacheSalt = b.cacheSalt ∧
      ∀ j ≤ i, a.embedKeysAt h j = b.embedKeysAt h j

def LoraIsSalt (a b : Request) : Prop :=
  ∃ name, a.loraName = some name ∧ a.cacheSalt = none ∧
    b.loraName = none ∧ b.cacheSalt = some name

/-- The first blocks have equal tokens and embeds, and one LoRA name is the other's salt. -/
def FirstBlockClash (h : BlockHasher) (a b : Request) : Prop :=
  h.blockSize ≤ a.numTokens ∧ h.blockSize ≤ b.numTokens ∧
    a.allTokenIds.take h.blockSize = b.allTokenIds.take h.blockSize ∧
    a.embedKeysAt h 0 = b.embedKeysAt h 0 ∧ (LoraIsSalt a b ∨ LoraIsSalt b a)

def TextKeys (h : BlockHasher) (r : Request) (j : Nat) : List ExtraKey :=
  genLoraExtraHashKeys r ++ genCacheSaltKeys r (j * h.blockSize) ++ r.embedKeysAt h j

theorem Request.extraKeysAt_text {r : Request} (hr : r.mmFeatures = []) (j : Nat) :
    r.extraKeysAt h j = packKeys (TextKeys h r j) := by
  simp [Request.extraKeysAt, Request.keysWith, Request.itemsIn, hr, keysOf, TextKeys,
    Request.embedKeysAt]

theorem Lifetime.hashed_text {p : RequestParams} {r : Request} (hr : Lifetime h p r)
    (hp : p.mmFeatures = []) : r.Hashed h (fun j => packKeys (TextKeys h r j)) := by
  have hmm : r.mmFeatures = [] := hr.sameKeys.mm.trans hp
  apply (hr.hashed (by simp [hp, NonOverlapping]) (by simp [InsidePrompt, hp])).congr
  intro j _
  have hlast : lastItemKeys p.blank (j * h.blockSize) = [] :=
    lastItemKeys_eq_nil (by simp [RequestParams.blank, hp])
  have hitems : p.blank.itemsIn (j * h.blockSize) (j * h.blockSize + h.blockSize) = [] :=
    Request.itemsIn_eq_nil (by simp [RequestParams.blank, hp])
  have hkeys : grownKeys h p j = p.blank.extraKeysAt h j := by
    rw [grownKeys, hlast, Request.extraKeysAt, hitems]
    simp [keysOf]
  rw [hkeys, ← hr.sameKeys.extraKeysAt, Request.extraKeysAt_text hmm]

theorem textKeys_eq_iff {a b : Request} {j : Nat} (hj : j ≠ 0) :
    TextKeys h a j = TextKeys h b j ↔
      a.loraName = b.loraName ∧ a.embedKeysAt h j = b.embedKeysAt h j := by
  have hpos := h.blockSize_pos
  have hne : j * h.blockSize ≠ 0 := Nat.mul_ne_zero hj (Nat.pos_iff_ne_zero.mp hpos)
  have hsalt : ∀ r : Request, genCacheSaltKeys r (j * h.blockSize) = [] := by
    intro r
    unfold genCacheSaltKeys
    split
    · rfl
    · rw [if_neg fun hc => hne hc.1]
  simp only [TextKeys, hsalt, List.append_nil, Request.embedKeysAt, genLoraExtraHashKeys,
    genPromptEmbedsExtraHashKeys, Request.loraName]
  cases a.loraRequest <;> cases b.loraRequest <;> cases a.promptEmbeds <;>
    cases b.promptEmbeds <;> simp

theorem append_embedKeys_inj {a b : Request} {j : Nat} {xs ys : List String} :
    xs.map ExtraKey.str ++ a.embedKeysAt h j = ys.map ExtraKey.str ++ b.embedKeysAt h j ↔
      xs = ys ∧ a.embedKeysAt h j = b.embedKeysAt h j := by
  induction xs generalizing ys with
  | nil =>
    cases ys with
    | nil => simp
    | cons y ys =>
      simp only [Request.embedKeysAt, genPromptEmbedsExtraHashKeys]
      cases a.promptEmbeds <;> simp
  | cons x xs ih =>
    cases ys with
    | nil =>
      simp only [Request.embedKeysAt, genPromptEmbedsExtraHashKeys]
      cases b.promptEmbeds <;> simp
    | cons y ys => simp [ih, and_assoc]

theorem textKeys_zero {r : Request} (hr : r.cacheSalt ≠ some "") :
    TextKeys h r 0 =
      (r.loraName.toList ++ r.cacheSalt.toList).map ExtraKey.str ++ r.embedKeysAt h 0 := by
  simp only [TextKeys, genLoraExtraHashKeys, genCacheSaltKeys, Request.loraName]
  cases hs : r.cacheSalt with
  | none => cases r.loraRequest <;> simp
  | some salt =>
    have : salt ≠ "" := fun he => hr (by rw [hs, he])
    cases r.loraRequest <;> simp [this]

theorem toList_append_inj {x x' s s' : Option String} :
    x.toList ++ s.toList = x'.toList ++ s'.toList ↔
      x = x' ∧ s = s' ∨ (∃ n, x = some n ∧ s = none ∧ x' = none ∧ s' = some n) ∨
        ∃ n, x' = some n ∧ s' = none ∧ x = none ∧ s = some n := by
  cases x <;> cases x' <;> cases s <;> cases s' <;> simp
  exact eq_comm

theorem textKeys_zero_iff {a b : Request} (ha : a.cacheSalt ≠ some "") (hb : b.cacheSalt ≠ some "") :
    TextKeys h a 0 = TextKeys h b 0 ↔ a.embedKeysAt h 0 = b.embedKeysAt h 0 ∧
      (a.loraName = b.loraName ∧ a.cacheSalt = b.cacheSalt ∨ LoraIsSalt a b ∨ LoraIsSalt b a) := by
  rw [textKeys_zero ha, textKeys_zero hb, append_embedKeys_inj, toList_append_inj, and_comm]
  rfl

/-- Two text requests are isolated from each other exactly when no LoRA name of one is passed as
the salt of the other over an equal first block: the two kinds of keys are not tagged. -/
theorem isolated_iff_not_firstBlockClash (hinj : Function.Injective h.cachingHashFn)
    {p q : RequestParams} {a b : Request} (ha : Lifetime h p a) (hb : Lifetime h q b)
    (hpt : p.mmFeatures = []) (hqt : q.mmFeatures = [])
    (hps : p.cacheSalt ≠ some "") (hqs : q.cacheSalt ≠ some "") :
    Isolated h a b ↔ ¬ FirstBlockClash h a b := by
  have hpos := h.blockSize_pos
  have has : a.cacheSalt ≠ some "" := by rw [ha.sameKeys.salt]; exact hps
  have hbs : b.cacheSalt ≠ some "" := by rw [hb.sameKeys.salt]; exact hqs
  have hagree : ∀ i, a.AgreeAt b i ↔ _ := fun i =>
    (ha.hashed_text hpt).agreeAt_iff hinj (hb.hashed_text hqt) (i := i)
  have hzero := textKeys_zero_iff (h := h) has hbs
  constructor
  · rintro hiso ⟨hla, hlb, htake, hembed, hclash⟩
    have hfirst : a.AgreeAt b 0 := by
      rw [hagree]
      refine ⟨Nat.div_pos hla hpos, Nat.div_pos hlb hpos, by simpa using htake, ?_⟩
      intro j hj
      rw [Nat.le_zero.mp hj, hzero.mpr ⟨hembed, Or.inr hclash⟩]
    obtain ⟨-, hname, -, -⟩ := hiso 0 hfirst
    rcases hclash with ⟨n, hn, -, hn', -⟩ | ⟨n, hn, -, hn', -⟩ <;> simp [hn, hn'] at hname
  · intro hno i hi
    obtain ⟨hia, hib, htake, hkeys⟩ := (hagree i).mp hi
    have hkeys : ∀ j ≤ i, TextKeys h a j = TextKeys h b j :=
      fun j hj => packKeys_injective (hkeys j hj)
    obtain ⟨hembed, hident⟩ := hzero.mp (hkeys 0 (Nat.zero_le i))
    have hsame : a.loraName = b.loraName ∧ a.cacheSalt = b.cacheSalt := by
      refine hident.resolve_right fun hclash => hno ?_
      have hfull : ∀ {r : Request}, i < r.numTokens / h.blockSize → h.blockSize ≤ r.numTokens :=
        fun hlt => (Nat.div_pos_iff.mp (Nat.zero_lt_of_lt hlt)).2
      have hfirst := Request.blockAt_of_take_eq (Nat.zero_le i) htake
      exact ⟨hfull hia, hfull hib, by simpa [Request.blockAt] using hfirst, hembed, hclash⟩
    refine ⟨htake, hsame.1, hsame.2, fun j hj => ?_⟩
    rcases Nat.eq_zero_or_pos j with rfl | hj0
    · exact hembed
    · exact ((textKeys_eq_iff (Nat.pos_iff_ne_zero.mp hj0)).mp (hkeys j hj)).2

def tokenBlockHasher : BlockHasher := BlockHasher.coded 1 Nat.one_pos

theorem isolated_of_distinct_salts :
    let p : RequestParams := { requestId := "p", promptTokenIds := some [7], cacheSalt := some "x" }
    let q : RequestParams := { requestId := "q", promptTokenIds := some [7], cacheSalt := some "y" }
    Isolated tokenBlockHasher (p.init (some tokenBlockHasher)) (q.init (some tokenBlockHasher)) := by
  intro p q
  refine (isolated_iff_not_firstBlockClash (BlockHasher.coded_injective 1 Nat.one_pos)
    Lifetime.init Lifetime.init rfl rfl (by simp [p]) (by simp [q])).mpr ?_
  rintro ⟨-, -, -, -, ⟨n, hn, -⟩ | ⟨n, hn, -⟩⟩ <;> exact absurd hn (by simp [p, q,
    Request.loraName, RequestParams.init, RequestParams.blank, Request.updateBlockHashes])

/-- The adapter `x` without salt and the salt `x` without adapter share their first block. -/
theorem not_isolated_lora_name_as_salt :
    let p : RequestParams :=
      { requestId := "p", promptTokenIds := some [7], loraRequest := some ⟨"x", 1⟩ }
    let q : RequestParams := { requestId := "q", promptTokenIds := some [7], cacheSalt := some "x" }
    Function.Injective tokenBlockHasher.cachingHashFn ∧
      (∀ x, tokenBlockHasher.cachingHashFn x ≠ tokenBlockHasher.noneHash) ∧
      ¬ Isolated tokenBlockHasher (p.init (some tokenBlockHasher))
        (q.init (some tokenBlockHasher)) := by
  intro p q
  refine ⟨BlockHasher.coded_injective 1 Nat.one_pos, BlockHasher.coded_ne_noneHash 1 Nat.one_pos, ?_⟩
  intro hiso
  have hagree : (p.init (some tokenBlockHasher)).AgreeAt (q.init (some tokenBlockHasher)) 0 :=
    ⟨_, rfl, rfl⟩
  obtain ⟨-, hname, -⟩ := hiso 0 hagree
  exact absurd hname (by decide)

end Text

/-! Placement: multimodal requests without LoRA, salt and embeds, hashed at construction. -/

section Placement

variable {h : BlockHasher}

structure RequestParams.Plain (p : RequestParams) : Prop where
  lora : p.loraRequest = none
  salt : p.cacheSalt = none
  embeds : p.promptEmbeds = none

def Request.placedBelow (r : Request) (stop : Nat) : List (String × Nat) :=
  (r.mmFeatures.filter fun f => f.offset < stop && 0 < f.length).map
    fun f => (f.identifier, f.offset)

def Request.identifiersIn (r : Request) (blockSize j : Nat) : List String :=
  (r.itemsIn (j * blockSize) (j * blockSize + blockSize)).map MultiModalFeatureSpec.identifier

/-- Requests that agree at a block have the same tokens and the same items at the same offsets. -/
def PlacementDetermined (h : BlockHasher) (a b : Request) : Prop :=
  ∀ i, a.AgreeAt b i →
    a.allTokenIds.take (i * h.blockSize + h.blockSize) =
        b.allTokenIds.take (i * h.blockSize + h.blockSize) ∧
      a.placedBelow (i * h.blockSize + h.blockSize) =
        b.placedBelow (i * h.blockSize + h.blockSize)

/-- Over equal tokens, every block up to `i` shows the same identifiers in both requests, but
some item stands at different offsets. -/
def ShiftedItem (h : BlockHasher) (a b : Request) (i : Nat) : Prop :=
  i < a.numTokens / h.blockSize ∧ i < b.numTokens / h.blockSize ∧
    a.allTokenIds.take (i * h.blockSize + h.blockSize) =
      b.allTokenIds.take (i * h.blockSize + h.blockSize) ∧
    (∀ j ≤ i, a.identifiersIn h.blockSize j = b.identifiersIn h.blockSize j) ∧
    a.placedBelow (i * h.blockSize + h.blockSize) ≠ b.placedBelow (i * h.blockSize + h.blockSize)

theorem keysOf_eq_iff {fs gs : List MultiModalFeatureSpec} : keysOf fs = keysOf gs ↔
    fs.map MultiModalFeatureSpec.identifier = gs.map MultiModalFeatureSpec.identifier := by
  have hmap : ∀ l : List MultiModalFeatureSpec,
      keysOf l = (l.map MultiModalFeatureSpec.identifier).map ExtraKey.str := by
    intro l
    simp [keysOf]
  rw [hmap, hmap]
  exact (List.map_injective_iff.mpr fun _ _ he => ExtraKey.str.inj he).eq_iff

theorem RequestParams.Plain.extraKeysAt {p : RequestParams} (hp : p.Plain) (j : Nat) :
    p.blank.extraKeysAt h j = packKeys
      (keysOf (p.blank.itemsIn (j * h.blockSize) (j * h.blockSize + h.blockSize))) := by
  have hlora : p.blank.loraRequest = none := hp.lora
  have hsalt : p.blank.cacheSalt = none := hp.salt
  have hembeds : p.blank.promptEmbeds = none := hp.embeds
  simp [Request.extraKeysAt, Request.keysWith, genLoraExtraHashKeys, genCacheSaltKeys,
    genPromptEmbedsExtraHashKeys, hlora, hsalt, hembeds]

theorem RequestParams.Plain.extraKeysAt_eq_iff {p q : RequestParams} (hp : p.Plain)
    (hq : q.Plain) (j : Nat) : p.blank.extraKeysAt h j = q.blank.extraKeysAt h j ↔
      (p.init (some h)).identifiersIn h.blockSize j =
        (q.init (some h)).identifiersIn h.blockSize j := by
  rw [hp.extraKeysAt, hq.extraKeysAt, packKeys_injective.eq_iff, keysOf_eq_iff]
  rfl

/-- The key of an item is its identifier alone, so placement is determined exactly when no item
is shifted inside the blocks it touches. -/
theorem placementDetermined_iff_not_shiftedItem (hinj : Function.Injective h.cachingHashFn)
    {p q : RequestParams} (hp : p.Plain) (hq : q.Plain)
    (hpm : NonOverlapping p.mmFeatures) (hqm : NonOverlapping q.mmFeatures) :
    PlacementDetermined h (p.init (some h)) (q.init (some h)) ↔
      ¬ ∃ i, ShiftedItem h (p.init (some h)) (q.init (some h)) i := by
  have hagree : ∀ i, (p.init (some h)).AgreeAt (q.init (some h)) i ↔ _ := fun i =>
    (hashed_of_fresh h (r := p.blank) hpm rfl).agreeAt_iff hinj
      (hashed_of_fresh h (r := q.blank) hqm rfl) (i := i)
  constructor
  · rintro hdet ⟨i, hia, hib, htake, hids, hne⟩
    refine hne (hdet i ((hagree i).mpr ⟨hia, hib, htake, fun j hj => ?_⟩)).2
    exact (hp.extraKeysAt_eq_iff hq j).mpr (hids j hj)
  · intro hno i hi
    obtain ⟨hia, hib, htake, hkeys⟩ := (hagree i).mp hi
    refine ⟨htake, ?_⟩
    by_contra hne
    refine hno ⟨i, hia, hib, htake, fun j hj => ?_, hne⟩
    exact (hp.extraKeysAt_eq_iff hq j).mp (hkeys j hj)

def onePlaceholder (requestId : ReqId) (offset : Nat) : RequestParams :=
  { requestId, promptTokenIds := some [0, 0, 0, 0], mmFeatures := [⟨"a", ⟨offset, 1, none⟩⟩] }

def fourTokenHasher : BlockHasher := BlockHasher.coded 4 (by decide)

theorem placementDetermined_same_offset :
    PlacementDetermined fourTokenHasher ((onePlaceholder "p" 1).init (some fourTokenHasher))
      ((onePlaceholder "q" 1).init (some fourTokenHasher)) := by
  refine (placementDetermined_iff_not_shiftedItem (BlockHasher.coded_injective 4 (by decide))
    ⟨rfl, rfl, rfl⟩ ⟨rfl, rfl, rfl⟩ (by decide) (by decide)).mpr ?_
  rintro ⟨i, -, -, -, -, hne⟩
  exact hne rfl

/-- The same item at offset 0 and at offset 1 of equal placeholder tokens gets one hash. -/
theorem not_placementDetermined_shifted :
    Function.Injective fourTokenHasher.cachingHashFn ∧
      ¬ PlacementDetermined fourTokenHasher ((onePlaceholder "p" 0).init (some fourTokenHasher))
        ((onePlaceholder "q" 1).init (some fourTokenHasher)) := by
  refine ⟨BlockHasher.coded_injective 4 (by decide), fun hdet => ?_⟩
  have hagree : ((onePlaceholder "p" 0).init (some fourTokenHasher)).AgreeAt
      ((onePlaceholder "q" 1).init (some fourTokenHasher)) 0 := ⟨_, rfl, rfl⟩
  have hplaced := (hdet 0 hagree).2
  exact absurd hplaced (by decide)

end Placement

end Vllm
