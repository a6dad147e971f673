import Vllm.MultiModalCache

universe u

namespace Vllm

variable {κ Item Updates : Type u} [DecidableEq κ]
variable {getItemSize : Item → Nat} {process : κ → Item × Updates}

namespace LRUCache

variable {α : Type u} {getsizeof : α → Nat} {c : LRUCache κ α} {key : κ}

theorem touch_data (c : LRUCache κ α) (key : κ) : (c.touch key).data = c.data := rfl

theorem get_of_some {value : α} (h : c.data.get? key = some value) :
    c.get key = (some value, c.touch key) := by
  simp only [get, h]

theorem get_of_none (h : c.data.get? key = none) : c.get key = (none, c) := by
  simp only [get, h]

end LRUCache

structure Mirrors (getItemSize : Item → Nat) (process : κ → Item × Updates)
    (c₀ : SenderCache κ Updates) (c₁ : ReceiverCache κ Item) : Prop where
  maxsize : c₀.maxsize = c₁.maxsize
  currsize : c₀.currsize = c₁.currsize
  order : c₀.order = c₁.order
  sizes : ∀ h, (c₀.data.get? h).map CacheItemMetadata.itemSize = (c₁.data.get? h).map getItemSize
  named : ∀ h x, c₁.data.get? h = some x → x = (process h).1

namespace Mirrors

variable {c₀ c₀' : SenderCache κ Updates} {c₁ : ReceiverCache κ Item} {h : κ}

theorem init (maxsize : Nat) : Mirrors getItemSize process (.init maxsize) (.init maxsize) :=
  ⟨rfl, rfl, rfl, fun _ => rfl, nofun⟩

theorem none_iff (hm : Mirrors getItemSize process c₀ c₁) :
    c₀.data.get? h = none ↔ c₁.data.get? h = none := by
  have := hm.sizes h
  rw [← Option.map_eq_none_iff (f := CacheItemMetadata.itemSize), this, Option.map_eq_none_iff]

theorem of_some (hm : Mirrors getItemSize process c₀ c₁) {m : CacheItemMetadata Updates}
    (hs : c₀.data.get? h = some m) :
    c₁.data.get? h = some (process h).1 ∧ m.itemSize = getItemSize (process h).1 := by
  have hsize := hm.sizes h
  rw [hs, Option.map_some] at hsize
  obtain ⟨x, hx, hxs⟩ := Option.map_eq_some_iff.mp hsize.symm
  have := hm.named h x hx
  subst this
  exact ⟨hx, hxs.symm⟩

theorem touch (hm : Mirrors getItemSize process c₀ c₁) (h : κ) :
    Mirrors getItemSize process (c₀.touch h) (c₁.touch h) :=
  ⟨hm.maxsize, hm.currsize, by simp only [LRUCache.touch, hm.order], hm.sizes, hm.named⟩

theorem pop (hm : Mirrors getItemSize process c₀ c₁) (h : κ) :
    Mirrors getItemSize process (c₀.pop CacheItemMetadata.itemSize h) (c₁.pop getItemSize h) := by
  cases hs : c₀.data.get? h with
  | none =>
    have hs₁ := hm.none_iff.mp hs
    simp only [LRUCache.pop, hs, hs₁]
    exact hm
  | some m =>
    obtain ⟨hs₁, hsize⟩ := hm.of_some hs
    simp only [LRUCache.pop, hs, hs₁]
    constructor
    case maxsize => exact hm.maxsize
    case currsize => simp only [LRUCache.touch, hm.currsize, hsize]
    case order => simp only [LRUCache.touch, hm.order]
    case sizes =>
      intro h'
      simp only [LRUCache.touch_data, Dict.get?_erase]
      split
      · rfl
      · exact hm.sizes h'
    case named =>
      intro h' x hx
      exact hm.named h' x (Dict.get?_of_erase hx)

theorem popitem (hm : Mirrors getItemSize process c₀ c₁)
    (hok : c₀.popitem CacheItemMetadata.itemSize = .ok c₀') :
    ∃ c₁', c₁.popitem getItemSize = .ok c₁' ∧ Mirrors getItemSize process c₀' c₁' := by
  unfold LRUCache.popitem at hok ⊢
  rw [← hm.order]
  split at hok
  · cases hok
  · cases hok
    exact ⟨_, rfl, hm.pop _⟩

theorem makeRoom (hm : Mirrors getItemSize process c₀ c₁) {size fuel : Nat}
    (hok : c₀.makeRoom CacheItemMetadata.itemSize size fuel = .ok c₀') :
    ∃ c₁', c₁.makeRoom getItemSize size fuel = .ok c₁' ∧ Mirrors getItemSize process c₀' c₁' := by
  induction fuel generalizing c₀ c₁ with
  | zero => cases hok
  | succ fuel ih =>
    unfold LRUCache.makeRoom at hok ⊢
    rw [← hm.currsize, ← hm.maxsize]
    split at hok
    · rename_i hfull
      obtain ⟨d₀, hd₀, hok⟩ := Result.bind_eq_ok.mp hok
      obtain ⟨d₁, hd₁, hm'⟩ := hm.popitem hd₀
      rw [if_pos hfull, hd₁, Result.ok_bind]
      exact ih hm' hok
    · rename_i hfit
      cases hok
      exact ⟨c₁, if_neg hfit, hm⟩

theorem setItem (hm : Mirrors getItemSize process c₀ c₁) (hnew : c₀.data.get? h = none) {u : Updates}
    (hok : c₀.setItem CacheItemMetadata.itemSize h ⟨getItemSize (process h).1, u⟩ = .ok c₀') :
    ∃ c₁', c₁.setItem getItemSize h (process h).1 = .ok c₁' ∧
      Mirrors getItemSize process c₀' c₁' := by
  have hnew₁ := hm.none_iff.mp hnew
  unfold LRUCache.setItem at hok ⊢
  simp only [← hm.maxsize, ← hm.order, hnew, hnew₁] at hok ⊢
  split at hok
  · cases hok
  · rename_i hsize
    rw [if_neg hsize]
    obtain ⟨d₀, hd₀, hok⟩ := Result.bind_eq_ok.mp hok
    obtain ⟨d₁, hd₁, hm'⟩ := hm.makeRoom hd₀
    rw [hd₁, Result.ok_bind]
    cases hok
    refine ⟨_, rfl, ?_⟩
    constructor
    case maxsize => exact hm'.maxsize
    case currsize => simp only [LRUCache.touch, hm'.currsize, hm'.sizes]
    case order => simp only [LRUCache.touch, hm'.order]
    case sizes =>
      intro h'
      simp only [LRUCache.touch_data, Dict.get?_set]
      split
      · rfl
      · exact hm'.sizes h'
    case named =>
      intro h' x hx
      simp only [LRUCache.touch_data, Dict.get?_set] at hx
      split at hx
      · rename_i heq
        cases hx
        rw [heq]
      · exact hm'.named h' x hx

theorem getAndUpdateItem (hm : Mirrors getItemSize process c₀ c₁) {mmItem : Option (Item × Updates)}
    (hitem : ∀ p ∈ mmItem, p = process h) {out : Option Item × Updates}
    (hok : c₀.getAndUpdateItem getItemSize mmItem h = .ok (out, c₀')) :
    ∃ c₁', c₁.getAndUpdateItem getItemSize out.1 h = .ok ((process h).1, c₁') ∧
      Mirrors getItemSize process c₀' c₁' := by
  unfold SenderCache.getAndUpdateItem at hok
  unfold ReceiverCache.getAndUpdateItem
  cases hs : c₀.data.get? h with
  | some m =>
    rw [LRUCache.get_of_some hs] at hok
    cases hok
    rw [LRUCache.get_of_some (hm.of_some hs).1]
    exact ⟨_, rfl, hm.touch h⟩
  | none =>
    rw [LRUCache.get_of_none hs] at hok
    rw [LRUCache.get_of_none (hm.none_iff.mp hs)]
    cases mmItem with
    | none => cases hok
    | some p =>
      have := hitem p rfl
      subst this
      obtain ⟨d₀, hd₀, hok⟩ := Result.bind_eq_ok.mp hok
      cases hok
      obtain ⟨d₁, hd₁, hm'⟩ := hm.setItem hs hd₀
      exact ⟨d₁, by simp only [hd₁, Result.ok_bind]; rfl, hm'⟩

def features (items : List κ) (outs : List (Option Item × Updates)) : List (MmFeature κ Item) :=
  (items.zip (outs.map Prod.fst)).map fun p => ⟨p.1, p.2⟩

omit [DecidableEq κ] in
theorem features_append {l₁ l₂ : List κ} {o₁ o₂ : List (Option Item × Updates)}
    (hlen : o₁.length = l₁.length) :
    features (l₁ ++ l₂) (o₁ ++ o₂) = features l₁ o₁ ++ features l₂ o₂ := by
  unfold features
  rw [List.map_append, List.zip_append (by rw [List.length_map, hlen]), List.map_append]

theorem updateFeatures_append {l₁ l₂ : List (MmFeature κ Item)} {c c' c'' : ReceiverCache κ Item}
    {s₁ s₂ : List (κ × Item)} (h₁ : updateFeatures getItemSize c l₁ = .ok (s₁, c'))
    (h₂ : updateFeatures getItemSize c' l₂ = .ok (s₂, c'')) :
    updateFeatures getItemSize c (l₁ ++ l₂) = .ok (s₁ ++ s₂, c'') := by
  induction l₁ generalizing c s₁ with
  | nil =>
    cases h₁
    exact h₂
  | cons f l₁ ih =>
    obtain ⟨⟨item, d⟩, hitem, h₁⟩ := Result.bind_eq_ok.mp h₁
    obtain ⟨⟨s, d'⟩, hs, h₁⟩ := Result.bind_eq_ok.mp h₁
    cases h₁
    rw [List.cons_append, updateFeatures, hitem, Result.ok_bind]
    simp only
    rw [ih hs]
    rfl

theorem mergeItems (hm : Mirrors getItemSize process c₀ c₁) {hashes : List (κ × Bool)}
    {outs : List (Option Item × Updates)}
    (hok : mergeItems getItemSize c₀ hashes
      ((hashes.filter (!·.2)).map fun p => process p.1) = .ok (outs, c₀')) :
    outs.length = hashes.length ∧ ∃ c₁',
      updateFeatures getItemSize c₁ (features (hashes.map Prod.fst) outs) =
        .ok (hashes.map fun p => (p.1, (process p.1).1), c₁') ∧
      Mirrors getItemSize process c₀' c₁' := by
  induction hashes generalizing c₀ c₁ outs with
  | nil =>
    cases hok
    exact ⟨rfl, c₁, rfl, hm⟩
  | cons p hashes ih =>
    obtain ⟨h, cached⟩ := p
    -- both branches of the source store or look up one item and go on
    have hcons : ∃ mmItem out d₀ rest, (∀ q ∈ mmItem, q = process h) ∧
        c₀.getAndUpdateItem getItemSize mmItem h = .ok (out, d₀) ∧
        Vllm.mergeItems getItemSize d₀ hashes
          ((hashes.filter (!·.2)).map fun p => process p.1) = .ok (rest, c₀') ∧
        outs = out :: rest := by
      cases cached with
      | true =>
        obtain ⟨⟨out, d₀⟩, hout, hok⟩ := Result.bind_eq_ok.mp hok
        obtain ⟨⟨rest, d⟩, hrest, hok⟩ := Result.bind_eq_ok.mp hok
        cases hok
        exact ⟨none, out, d₀, rest, nofun, hout, hrest, rfl⟩
      | false =>
        obtain ⟨⟨out, d₀⟩, hout, hok⟩ := Result.bind_eq_ok.mp hok
        obtain ⟨⟨rest, d⟩, hrest, hok⟩ := Result.bind_eq_ok.mp hok
        cases hok
        exact ⟨some (process h), out, d₀, rest, fun q hq => (Option.some_inj.mp hq).symm, hout, hrest,
          rfl⟩
    obtain ⟨mmItem, out, d₀, rest, hitem, hout, hrest, rfl⟩ := hcons
    obtain ⟨d₁, hd₁, hm'⟩ := hm.getAndUpdateItem hitem hout
    obtain ⟨hlen, c₁', hc₁', hm''⟩ := ih hm' hrest
    refine ⟨by simp [hlen], c₁', ?_, hm''⟩
    show updateFeatures getItemSize c₁ (⟨h, out.1⟩ :: features (hashes.map Prod.fst) rest) = _
    rw [updateFeatures]
    simp only
    rw [hd₁, Result.ok_bind]
    simp only
    rw [hc₁']
    rfl

theorem mergeModalities (hm : Mirrors getItemSize process c₀ c₁) {modalities : List (List (κ × Bool))}
    {outs : List (List (Option Item × Updates))}
    (hok : mergeModalities getItemSize c₀ (modalities.map fun hashes =>
      (hashes, (hashes.filter (!·.2)).map fun p => process p.1)) = .ok (outs, c₀')) :
    outs.flatten.length = modalities.flatten.length ∧ ∃ c₁',
      updateFeatures getItemSize c₁ (features (modalities.flatten.map Prod.fst) outs.flatten) =
        .ok (modalities.flatten.map fun p => (p.1, (process p.1).1), c₁') ∧
      Mirrors getItemSize process c₀' c₁' := by
  induction modalities generalizing c₀ c₁ outs with
  | nil =>
    cases hok
    exact ⟨rfl, c₁, rfl, hm⟩
  | cons hashes modalities ih =>
    obtain ⟨⟨out, d₀⟩, hout, hok⟩ := Result.bind_eq_ok.mp hok
    obtain ⟨⟨rest, d⟩, hrest, hok⟩ := Result.bind_eq_ok.mp hok
    cases hok
    obtain ⟨hlen, d₁, hd₁, hm'⟩ := hm.mergeItems hout
    obtain ⟨hlen', c₁', hc₁', hm''⟩ := ih hm' hrest
    refine ⟨by simp [hlen, hlen'], c₁', ?_, hm''⟩
    rw [List.flatten_cons, List.flatten_cons, List.map_append, features_append (by simp [hlen]),
      List.map_append]
    exact updateFeatures_append hd₁ hc₁'

theorem touchAll (hm : Mirrors getItemSize process c₀ c₁) (hashes : List κ) :
    Mirrors getItemSize process (hashes.foldl LRUCache.touch c₀)
      (hashes.foldl LRUCache.touch c₁) := by
  induction hashes generalizing c₀ c₁ with
  | nil => exact hm
  | cons h hashes ih => exact ih (hm.touch h)

end Mirrors

def MmInputs.InPromptOrder (inputs : MmInputs κ) : Prop :=
  (inputs.flatMap Prod.snd).Pairwise fun a b => a.offset ≤ b.offset

instance (inputs : MmInputs κ) : Decidable inputs.InPromptOrder :=
  inferInstanceAs (Decidable (List.Pairwise _ _))

def MmInputs.hashes (inputs : MmInputs κ) : List κ := (inputs.flatMap Prod.snd).map MmItem.mmHash

def MmInputs.flagged (inputs : MmInputs κ) (c : SenderCache κ Updates) : List (List (κ × Bool)) :=
  inputs.map fun m => m.2.map fun i => (i.mmHash, c.contains i.mmHash)

theorem missingItems_eq (c : SenderCache κ Updates) (inputs : MmInputs κ) :
    (inputs.map fun m => missingItems process c m.2) = (inputs.flagged c).map fun hashes =>
      (hashes, (hashes.filter (!·.2)).map fun p => process p.1) := by
  rw [MmInputs.flagged, List.map_map]
  refine List.map_congr_left fun m _ => ?_
  simp only [missingItems, Function.comp, List.filter_map, List.map_map]
  rfl

theorem MmInputs.map_fst_flagged (c : SenderCache κ Updates) (inputs : MmInputs κ) :
    (inputs.flagged c).flatten.map Prod.fst = inputs.hashes := by
  rw [flagged, hashes, List.flatMap_def, List.map_flatten, List.map_flatten, List.map_map, List.map_map]
  refine congrArg List.flatten (List.map_congr_left fun m _ => ?_)
  simp only [Function.comp, List.map_map]
  rfl

theorem mergeMmKwargs_eq (c : SenderCache κ Updates) (inputs : MmInputs κ) :
    mergeMmKwargs getItemSize c (inputs.map fun m => missingItems process c m.2) =
      mergeModalities getItemSize (inputs.hashes.foldl LRUCache.touch c)
        ((inputs.flagged c).map fun hashes =>
          (hashes, (hashes.filter (!·.2)).map fun p => process p.1)) := by
  have hfst : ∀ l : List (List (κ × Bool)), (l.map fun hashes =>
      (hashes, (hashes.filter (!·.2)).map fun p => process p.1)).flatMap Prod.fst = l.flatten := by
    intro l
    rw [List.flatMap_def, List.map_map]
    exact congrArg List.flatten (List.map_id l)
  rw [missingItems_eq, mergeMmKwargs, hfst, ← MmInputs.map_fst_flagged c inputs, List.foldl_map]

theorem sendRequest_eq_ok {c c₀ : SenderCache κ Updates} {inputs : MmInputs κ}
    {sent : List (MmFeature κ Item)}
    (h : sendRequest getItemSize process c inputs = .ok (sent, c₀)) :
    ∃ outs, mergeModalities getItemSize (inputs.hashes.foldl LRUCache.touch c)
        ((inputs.flagged c).map fun hashes =>
          (hashes, (hashes.filter (!·.2)).map fun p => process p.1)) = .ok (outs, c₀) ∧
      sent = (((inputs.flatMap Prod.snd).zip (outs.flatten.map Prod.fst)).insertionSort
        fun a b => a.1.offset ≤ b.1.offset).map fun p => ⟨p.1.mmHash, p.2⟩ := by
  obtain ⟨⟨outs, d⟩, hmerge, h⟩ := Result.bind_eq_ok.mp h
  cases h
  rw [mergeMmKwargs_eq] at hmerge
  exact ⟨outs, hmerge, rfl⟩

theorem Mirrors.serve {t : CachePair κ Item Updates} {inputs : MmInputs κ}
    (hm : Mirrors getItemSize process t.sender t.receiver) (hsorted : inputs.InPromptOrder)
    {sent : List (MmFeature κ Item)} {c₀ : SenderCache κ Updates}
    (hsend : sendRequest getItemSize process t.sender inputs = .ok (sent, c₀)) :
    ∃ c₁, t.serve getItemSize process inputs =
        .ok ⟨c₀, c₁, inputs.hashes.map fun h => (h, (process h).1)⟩ ∧
      Mirrors getItemSize process c₀ c₁ := by
  obtain ⟨outs, hmerge, hsent⟩ := sendRequest_eq_ok hsend
  obtain ⟨hlen, c₁, hserve, hm'⟩ := (hm.touchAll inputs.hashes).mergeModalities hmerge
  rw [MmInputs.map_fst_flagged] at hserve
  have hlength : (inputs.flatMap Prod.snd).length = (outs.flatten.map Prod.fst).length := by
    have := congrArg List.length (MmInputs.map_fst_flagged t.sender inputs)
    rw [List.length_map, MmInputs.hashes, List.length_map] at this
    rw [List.length_map, hlen, this]
  -- the items are in prompt order already, so nothing is moved
  have hflat : ((inputs.flatMap Prod.snd).zip (outs.flatten.map Prod.fst)).Pairwise
      fun a b => a.1.offset ≤ b.1.offset := by
    have := hsorted
    rw [MmInputs.InPromptOrder, ← List.map_fst_zip hlength.le, List.pairwise_map] at this
    exact this
  have hfeatures : sent = Mirrors.features inputs.hashes outs.flatten := by
    rw [hsent, hflat.insertionSort_eq, Mirrors.features, MmInputs.hashes, List.zip_map_left,
      List.map_map]
    rfl
  have htouch : sent.foldl (fun c f => c.touch f.mmHash) t.receiver =
      inputs.hashes.foldl LRUCache.touch t.receiver := by
    have hhashes : sent.map MmFeature.mmHash = inputs.hashes := by
      rw [hfeatures, Mirrors.features, List.map_map]
      refine (List.map_congr_left fun p _ => rfl).trans (List.map_fst_zip ?_)
      rw [MmInputs.hashes, List.length_map]
      exact hlength.le
    rw [← hhashes, List.foldl_map]
  refine ⟨c₁, ?_, hm'⟩
  unfold CachePair.serve
  rw [hsend, Result.ok_bind]
  simp only [getAndUpdateFeatures]
  rw [htouch, hfeatures, hserve, Result.ok_bind, ← MmInputs.map_fst_flagged t.sender inputs,
    List.map_map]
  rfl

end Vllm
