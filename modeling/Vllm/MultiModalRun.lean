import Mathlib.Algebra.Order.BigOperators.Group.List
import Mathlib.Algebra.Order.Ring.Nat
import Vllm.MultiModalMirror

universe u

namespace Vllm

variable {κ : Type u} [DecidableEq κ]

omit [DecidableEq κ] in
theorem sum_map_le_of_nodup_subset {l m : List κ} (hl : l.Nodup) (hsub : l ⊆ m) (f : κ → Nat) :
    (l.map f).sum ≤ (m.map f).sum := by
  obtain ⟨l', hperm, hsublist⟩ := List.subperm_of_subset hl hsub
  rw [← (hperm.map f).sum_eq]
  exact (hsublist.map f).sum_le_sum fun _ _ => Nat.zero_le _

namespace LRUCache

variable {α : Type u} {getsizeof : α → Nat} {size : κ → Nat} {ts hs : List κ} {c c' : LRUCache κ α}
variable {h : κ}

structure Touched (getsizeof : α → Nat) (size : κ → Nat) (ts : List κ) (c : LRUCache κ α) : Prop where
  nodup : c.order.Nodup
  stored : ∀ h v, c.data.get? h = some v → h ∈ c.order ∧ getsizeof v = size h
  split : ∃ old new, c.order = old ++ new ∧ (∀ h ∈ old, h ∉ ts ∧ c.data.get? h ≠ none) ∧
    ∀ h ∈ new, h ∈ ts
  total : c.currsize = c.data.total getsizeof
  fits : c.currsize ≤ c.maxsize

theorem Touched.init (maxsize : Nat) : Touched getsizeof size [] (init maxsize : LRUCache κ α) :=
  ⟨List.nodup_nil, nofun, ⟨[], [], rfl, nofun, nofun⟩, rfl, Nat.zero_le _⟩

theorem Touched.touch (hc : Touched getsizeof size ts c) (h : κ) :
    Touched getsizeof size (ts ++ [h]) (c.touch h) := by
  constructor
  case nodup => exact nodup_touch hc.nodup
  case stored =>
    intro k v hk
    obtain ⟨hmem, hsize⟩ := hc.stored k v hk
    refine ⟨mem_touch_order.mpr ?_, hsize⟩
    by_cases hkh : k = h
    · exact .inr hkh
    · exact .inl ((List.mem_erase_of_ne hkh).mpr hmem)
  case split =>
    obtain ⟨old, new, horder, hold, hnew⟩ := hc.split
    have hnodup := hc.nodup
    rw [horder, List.nodup_append] at hnodup
    refine ⟨old.erase h, new.erase h ++ [h], ?_, fun k hk => ?_, fun k hk => ?_⟩
    · by_cases hmem : h ∈ old
      · have hnot : h ∉ new := fun hn => hnodup.2.2 h hmem h hn rfl
        rw [LRUCache.touch, horder, List.erase_append_left _ hmem, List.erase_of_not_mem hnot,
          List.append_assoc]
      · rw [LRUCache.touch, horder, List.erase_append_right _ hmem, List.erase_of_not_mem hmem,
          List.append_assoc]
    · have hkh : k ≠ h := fun heq => hnodup.1.not_mem_erase (heq ▸ hk)
      obtain ⟨hnot, hsome⟩ := hold k (List.mem_of_mem_erase hk)
      exact ⟨by simp [hnot, hkh], hsome⟩
    · rcases List.mem_append.mp hk with hk | hk
      · exact List.mem_append_left _ (hnew k (List.mem_of_mem_erase hk))
      · exact List.mem_append_right _ hk
  case total => exact hc.total
  case fits => exact hc.fits

theorem Touched.congr (hc : Touched getsizeof size ts c) (heq : ∀ h, h ∈ ts ↔ h ∈ hs) :
    Touched getsizeof size hs c := by
  obtain ⟨old, new, horder, hold, hnew⟩ := hc.split
  refine ⟨hc.nodup, hc.stored, ⟨old, new, horder, fun h hh => ?_, fun h hh => ?_⟩, hc.total, hc.fits⟩
  · exact ⟨fun hmem => (hold h hh).1 ((heq h).mpr hmem), (hold h hh).2⟩
  · exact (heq h).mp (hnew h hh)

theorem Touched.room (hc : Touched getsizeof size hs c) (hold : ∀ k ∈ c.order, k ∈ hs) (hh : h ∈ hs)
    (hnone : c.data.get? h = none) (hcap : (hs.dedup.map size).sum ≤ c.maxsize) :
    c.currsize + size h ≤ c.maxsize := by
  have hsum : c.data.total getsizeof = (c.data.keys.map size).sum := by
    unfold Dict.total Dict.values Dict.keys
    rw [List.map_map, List.map_map]
    refine congrArg List.sum (List.map_congr_left fun p hp => ?_)
    exact (hc.stored p.1 p.2 (Dict.get?_eq_some.mpr hp)).2
  have hnot : h ∉ c.data.keys := Dict.get?_eq_none.mp hnone
  have hsub : h :: c.data.keys ⊆ hs.dedup := by
    intro k hk
    rw [List.mem_dedup]
    rcases List.mem_cons.mp hk with rfl | hk
    · exact hh
    · obtain ⟨v, hv⟩ := Dict.mem_keys.mp hk
      exact hold k (hc.stored k v hv).1
  have hle := sum_map_le_of_nodup_subset (List.nodup_cons.mpr ⟨hnot, c.data.nodup⟩) hsub size
  rw [List.map_cons, List.sum_cons, ← hsum, ← hc.total] at hle
  omega

theorem Touched.pop (hc : Touched getsizeof size hs c) {k : κ} {rest : List κ}
    (horder : c.order = k :: rest) (hk : k ∉ hs) {v : α} (hv : c.data.get? k = some v) :
    Touched getsizeof size hs (c.pop getsizeof k) ∧ (c.pop getsizeof k).order = rest ∧
      (c.pop getsizeof k).maxsize = c.maxsize ∧
      ∀ h ∈ hs, (c.pop getsizeof k).data.get? h = c.data.get? h := by
  have hnodup := hc.nodup
  rw [horder, List.nodup_cons] at hnodup
  have hpop : c.pop getsizeof k =
      { c with
        currsize := c.currsize - getsizeof v
        data := c.data.erase k
        order := rest } := by
    simp only [LRUCache.pop, hv, LRUCache.touch, horder]
    rw [List.erase_cons_head, List.erase_append_right _ hnodup.1, List.erase_cons_head,
      List.append_nil]
  rw [hpop]
  have hget : ∀ h, (c.data.erase k).get? h = if k = h then none else c.data.get? h :=
    Dict.get?_erase c.data k
  refine ⟨?_, rfl, rfl, fun h hh => ?_⟩
  · constructor
    case nodup => exact hnodup.2
    case stored =>
      intro h w hw
      simp only [hget] at hw
      split at hw
      · cases hw
      · rename_i hkh
        obtain ⟨hmem, hsize⟩ := hc.stored h w hw
        rw [horder, List.mem_cons] at hmem
        exact ⟨hmem.resolve_left fun heq => hkh heq.symm, hsize⟩
    case split =>
      obtain ⟨old, new, hsplit, hold, hnew⟩ := hc.split
      rw [horder] at hsplit
      cases old with
      | nil =>
        have hmem : k ∈ new := by
          rw [List.nil_append] at hsplit
          rw [← hsplit]
          exact List.mem_cons_self
        exact absurd (hnew k hmem) hk
      | cons k' old =>
        rw [List.cons_append] at hsplit
        obtain ⟨rfl, hrest⟩ := List.cons.inj hsplit
        refine ⟨old, new, hrest, fun h hh => ?_, hnew⟩
        obtain ⟨hnot, hsome⟩ := hold h (List.mem_cons_of_mem k hh)
        have hkh : k ≠ h := by
          rintro rfl
          exact hnodup.1 (hrest ▸ List.mem_append_left _ hh)
        refine ⟨hnot, ?_⟩
        simp only [hget, if_neg hkh]
        exact hsome
    case total =>
      have := Dict.total_erase getsizeof c.data k
      rw [hv, Option.map_some, Option.getD_some] at this
      simp only
      rw [hc.total]
      omega
    case fits => exact (Nat.sub_le _ _).trans hc.fits
  · simp only [hget]
    rw [if_neg]
    rintro rfl
    exact hk hh

theorem Touched.makeRoom (hc : Touched getsizeof size hs c) (hh : h ∈ hs)
    (hnone : c.data.get? h = none) (hcap : (hs.dedup.map size).sum ≤ c.maxsize) {fuel : Nat}
    (hfuel : c.order.length < fuel) :
    ∃ c', c.makeRoom getsizeof (size h) fuel = .ok c' ∧ Touched getsizeof size hs c' ∧
      c'.maxsize = c.maxsize ∧ c'.currsize + size h ≤ c'.maxsize ∧
      ∀ k ∈ hs, c'.data.get? k = c.data.get? k := by
  induction fuel generalizing c with
  | zero => exact absurd hfuel (Nat.not_lt_zero _)
  | succ fuel ih =>
    unfold LRUCache.makeRoom
    split
    · rename_i hfull
      obtain ⟨old, new, horder, hold, hnew⟩ := hc.split
      cases old with
      | nil =>
        -- nothing else is left, and the touched keys fit
        have hroom := hc.room (fun k hk => hnew k (by rwa [horder, List.nil_append] at hk)) hh hnone
          hcap
        omega
      | cons k old =>
        obtain ⟨hk, hsome⟩ := hold k List.mem_cons_self
        obtain ⟨v, hv⟩ := Option.ne_none_iff_exists'.mp hsome
        obtain ⟨hc', horder', hmax, hkeep⟩ := hc.pop horder hk hv
        have hpop : c.popitem getsizeof = .ok (c.pop getsizeof k) := by
          simp only [popitem, horder, List.cons_append]
        rw [horder, List.cons_append, List.length_cons] at hfuel
        obtain ⟨c', hok, hc'', hmax', hroom, hkeep'⟩ := ih hc' ((hkeep h hh).trans hnone)
          (hmax ▸ hcap) (by rw [horder']; exact Nat.lt_of_succ_lt_succ hfuel)
        refine ⟨c', ?_, hc'', hmax'.trans hmax, hroom, fun k' hk' => ?_⟩
        · rw [hpop, Result.ok_bind, hok]
        · rw [hkeep' k' hk', hkeep k' hk']
    · rename_i hfit
      exact ⟨c, rfl, hc, rfl, Nat.le_of_not_lt hfit, fun _ _ => rfl⟩

theorem Touched.setItem (hc : Touched getsizeof size hs c) (hh : h ∈ hs)
    (hnone : c.data.get? h = none) (hcap : (hs.dedup.map size).sum ≤ c.maxsize) {v : α}
    (hv : getsizeof v = size h) :
    ∃ c', c.setItem getsizeof h v = .ok c' ∧ Touched getsizeof size hs c' ∧
      c'.maxsize = c.maxsize ∧
      ∀ k ∈ hs, c'.data.get? k = if h = k then some v else c.data.get? k := by
  obtain ⟨d, hok, hd, hmax, hroom, hkeep⟩ := hc.makeRoom hh hnone hcap
    (Nat.lt_succ_self c.order.length)
  have hdnone : d.data.get? h = none := (hkeep h hh).trans hnone
  have hsize : ¬ size h > c.maxsize := by
    have := hd.fits
    omega
  refine ⟨({ d with currsize := d.currsize + size h, data := d.data.set h v } :
    LRUCache κ α).touch h, ?_, ?_, hmax, fun k hk => ?_⟩
  · simp only [LRUCache.setItem, hv, if_neg hsize, hnone, hok, Result.ok_bind, hdnone,
      Option.map_none, Option.getD_none, Nat.sub_zero]
    rfl
  · have hset : Touched getsizeof size (hs ++ [h])
        (({ d with currsize := d.currsize + size h, data := d.data.set h v } :
          LRUCache κ α).touch h) := by
      have ht := hd.touch h
      obtain ⟨old, new, horder, hold, hnew⟩ := ht.split
      refine ⟨ht.nodup, fun k w hw => ?_, ⟨old, new, horder, fun k hk => ?_, hnew⟩, ?_, hroom⟩
      · rw [touch_data, Dict.get?_set] at hw
        split at hw
        · rename_i heq
          subst heq
          cases hw
          exact ⟨mem_touch_order.mpr (.inr rfl), hv⟩
        · exact ht.stored k w hw
      · obtain ⟨hnot, hsome⟩ := hold k hk
        have hne : h ≠ k := by
          rintro rfl
          exact hnot (by simp)
        rw [touch_data, Dict.get?_set, if_neg hne]
        exact ⟨hnot, hsome⟩
      · have htotal := Dict.total_set getsizeof d.data h v
        rw [hdnone, Option.map_none, Option.getD_none, Nat.add_zero, hv, ← hd.total] at htotal
        exact htotal.symm
    exact hset.congr fun k => by simp; rintro rfl; exact hh
  · rw [touch_data]
    simp only [Dict.get?_set, hkeep k hk]

theorem Touched.touchAll (hc : Touched getsizeof size ts c) (hs : List κ) :
    Touched getsizeof size (ts ++ hs) (hs.foldl LRUCache.touch c) := by
  induction hs generalizing ts c with
  | nil =>
    rw [List.append_nil]
    exact hc
  | cons h hs ih =>
    have := ih (hc.touch h)
    rwa [List.append_assoc] at this

theorem touchAll_data (hs : List κ) (c : LRUCache κ α) :
    (hs.foldl LRUCache.touch c).data = c.data ∧ (hs.foldl LRUCache.touch c).maxsize = c.maxsize := by
  induction hs generalizing c with
  | nil => exact ⟨rfl, rfl⟩
  | cons h hs ih => exact ih (c.touch h)

theorem Touched.settle (hc : Touched getsizeof size hs c) (hall : ∀ h ∈ hs, c.data.get? h ≠ none) :
    Touched getsizeof size [] c := by
  obtain ⟨old, new, horder, hold, hnew⟩ := hc.split
  refine ⟨hc.nodup, hc.stored, ⟨old ++ new, [], by rw [horder, List.append_nil], fun h hh => ?_, nofun⟩,
    hc.total, hc.fits⟩
  rcases List.mem_append.mp hh with hh | hh
  · exact ⟨List.not_mem_nil, (hold h hh).2⟩
  · exact ⟨List.not_mem_nil, hall h (hnew h hh)⟩

end LRUCache

section Sender

variable {Item Updates : Type u} {getItemSize : Item → Nat} {process : κ → Item × Updates}
variable {hs : List κ} {c : SenderCache κ Updates} {h : κ}

def namedSize (getItemSize : Item → Nat) (process : κ → Item × Updates) (h : κ) : Nat :=
  getItemSize (process h).1

abbrev Sending (getItemSize : Item → Nat) (process : κ → Item × Updates) (hs : List κ)
    (c : SenderCache κ Updates) : Prop :=
  LRUCache.Touched CacheItemMetadata.itemSize (namedSize getItemSize process) hs c

def Keeps (hs : List κ) (c c' : SenderCache κ Updates) : Prop :=
  ∀ k ∈ hs, c.data.get? k ≠ none → c'.data.get? k ≠ none

theorem Sending.getAndUpdateItem (hc : Sending getItemSize process hs c) (hh : h ∈ hs)
    (hcap : (hs.dedup.map (namedSize getItemSize process)).sum ≤ c.maxsize)
    {mmItem : Option (Item × Updates)}
    (hitem : c.data.get? h = none → mmItem = some (process h)) :
    ∃ out c', c.getAndUpdateItem getItemSize mmItem h = .ok (out, c') ∧
      Sending getItemSize process hs c' ∧ c'.maxsize = c.maxsize ∧ Keeps hs c c' ∧
      c'.data.get? h ≠ none := by
  cases hs' : c.data.get? h with
  | some m =>
    refine ⟨(none, m.promptUpdates), c.touch h, ?_, ?_, rfl, fun _ _ hk => hk, ?_⟩
    · simp only [SenderCache.getAndUpdateItem, LRUCache.get_of_some hs']
    · exact (hc.touch h).congr fun k => by simp; rintro rfl; exact hh
    · rw [LRUCache.touch_data, hs']
      exact Option.some_ne_none m
  | none =>
    obtain ⟨c', hok, hc', hmax, hget⟩ := hc.setItem hh hs' hcap
      (v := ⟨getItemSize (process h).1, (process h).2⟩) rfl
    refine ⟨(some (process h).1, (process h).2), c', ?_, hc', hmax, fun k hk hsome => ?_, ?_⟩
    · simp only [SenderCache.getAndUpdateItem, LRUCache.get_of_none hs', hitem hs', hok,
        Result.ok_bind]
      rfl
    · rw [hget k hk]
      split
      · exact Option.some_ne_none _
      · exact hsome
    · rw [hget h hh, if_pos rfl]
      exact Option.some_ne_none _

theorem Sending.mergeItems {hashes : List (κ × Bool)} (hc : Sending getItemSize process hs c)
    (hsub : ∀ p ∈ hashes, p.1 ∈ hs)
    (hcap : (hs.dedup.map (namedSize getItemSize process)).sum ≤ c.maxsize)
    (hflag : ∀ p ∈ hashes, p.2 = true → c.data.get? p.1 ≠ none) :
    ∃ outs c', Vllm.mergeItems getItemSize c hashes
        ((hashes.filter (!·.2)).map fun p => process p.1) = .ok (outs, c') ∧
      Sending getItemSize process hs c' ∧ c'.maxsize = c.maxsize ∧ Keeps hs c c' ∧
      ∀ p ∈ hashes, c'.data.get? p.1 ≠ none := by
  induction hashes generalizing c with
  | nil => exact ⟨[], c, rfl, hc, rfl, fun _ _ hk => hk, nofun⟩
  | cons p hashes ih =>
    obtain ⟨h, cached⟩ := p
    have hh : h ∈ hs := hsub (h, cached) List.mem_cons_self
    obtain ⟨mmItem, hmmItem⟩ : ∃ mmItem, mmItem = if cached then none else some (process h) :=
      ⟨_, rfl⟩
    have hitem : c.data.get? h = none → mmItem = some (process h) := by
      intro hnone
      cases cached with
      | true => exact absurd hnone (hflag (h, true) List.mem_cons_self rfl)
      | false => exact hmmItem
    obtain ⟨out, d, hout, hd, hmax, hkeep, hstored⟩ := hc.getAndUpdateItem hh hcap hitem
    obtain ⟨outs, c', hok, hc', hmax', hkeep', hstored'⟩ := ih hd
      (fun p hp => hsub p (List.mem_cons_of_mem _ hp)) (hmax ▸ hcap) fun p hp hcached =>
        hkeep p.1 (hsub p (List.mem_cons_of_mem _ hp))
          (hflag p (List.mem_cons_of_mem _ hp) hcached)
    refine ⟨out :: outs, c', ?_, hc', hmax'.trans hmax, fun k hk hsome => hkeep' k hk (hkeep k hk hsome),
      fun p hp => ?_⟩
    · cases cached with
      | true =>
        rw [if_pos rfl] at hmmItem
        rw [hmmItem] at hout
        simp only [List.filter_cons, Bool.not_true, Bool.false_eq_true, if_false, Vllm.mergeItems, hout,
          hok, Result.ok_bind]
        rfl
      | false =>
        rw [if_neg (by simp)] at hmmItem
        rw [hmmItem] at hout
        simp only [List.filter_cons, Bool.not_false, if_true, List.map_cons, Vllm.mergeItems, hout,
          hok, Result.ok_bind]
        rfl
    · rcases List.mem_cons.mp hp with rfl | hp
      · exact hkeep' h hh hstored
      · exact hstored' p hp

theorem Sending.mergeModalities (modalities : List (List (κ × Bool)))
    (hc : Sending getItemSize process hs c) (hsub : ∀ p ∈ modalities.flatten, p.1 ∈ hs)
    (hcap : (hs.dedup.map (namedSize getItemSize process)).sum ≤ c.maxsize)
    (hflag : ∀ p ∈ modalities.flatten, p.2 = true → c.data.get? p.1 ≠ none) :
    ∃ outs c', Vllm.mergeModalities getItemSize c (modalities.map fun hashes =>
        (hashes, (hashes.filter (!·.2)).map fun p => process p.1)) = .ok (outs, c') ∧
      Sending getItemSize process hs c' ∧ c'.maxsize = c.maxsize ∧ Keeps hs c c' ∧
      ∀ p ∈ modalities.flatten, c'.data.get? p.1 ≠ none := by
  induction modalities generalizing c with
  | nil => exact ⟨[], c, rfl, hc, rfl, fun _ _ hk => hk, nofun⟩
  | cons hashes modalities ih =>
    simp only [List.flatten_cons, List.mem_append] at hsub hflag
    obtain ⟨out, d, hout, hd, hmax, hkeep, hstored⟩ := hc.mergeItems
      (fun p hp => hsub p (.inl hp)) hcap fun p hp => hflag p (.inl hp)
    obtain ⟨outs, c', hok, hc', hmax', hkeep', hstored'⟩ := ih hd
      (fun p hp => hsub p (.inr hp)) (hmax ▸ hcap) fun p hp hcached =>
        hkeep p.1 (hsub p (.inr hp)) (hflag p (.inr hp) hcached)
    refine ⟨out :: outs, c', ?_, hc', hmax'.trans hmax,
      fun k hk hsome => hkeep' k hk (hkeep k hk hsome), fun p hp => ?_⟩
    · simp only [List.map_cons, Vllm.mergeModalities, hout, hok, Result.ok_bind]
      rfl
    · rw [List.flatten_cons, List.mem_append] at hp
      rcases hp with hp | hp
      · exact hkeep' p.1 (hsub p (.inl hp)) (hstored p hp)
      · exact hstored' p hp

def MmInputs.Fit (getItemSize : Item → Nat) (process : κ → Item × Updates) (maxsize : Nat)
    (inputs : MmInputs κ) : Prop :=
  (inputs.hashes.dedup.map (namedSize getItemSize process)).sum ≤ maxsize

instance (maxsize : Nat) (inputs : MmInputs κ) :
    Decidable (inputs.Fit getItemSize process maxsize) :=
  inferInstanceAs (Decidable (_ ≤ _))

theorem Sending.sendRequest {inputs : MmInputs κ} (hc : Sending getItemSize process [] c)
    (hfit : inputs.Fit getItemSize process c.maxsize) :
    ∃ sent c', Vllm.sendRequest getItemSize process c inputs = .ok (sent, c') ∧
      Sending getItemSize process [] c' ∧ c'.maxsize = c.maxsize := by
  have htouched := hc.touchAll inputs.hashes
  rw [List.nil_append] at htouched
  obtain ⟨hdata, hmax⟩ := LRUCache.touchAll_data inputs.hashes c
  have hmem : ∀ p ∈ (inputs.flagged c).flatten, p.1 ∈ inputs.hashes := by
    intro p hp
    rw [← MmInputs.map_fst_flagged c inputs]
    exact List.mem_map_of_mem hp
  obtain ⟨outs, c', hok, hc', hmax', -, hstored⟩ := Sending.mergeModalities
    (inputs.flagged c) htouched hmem (hmax ▸ hfit) (by
      intro p hp hcached
      obtain ⟨hashes, hhashes, hp⟩ := List.mem_flatten.mp hp
      obtain ⟨m, -, rfl⟩ := List.mem_map.mp hhashes
      obtain ⟨i, -, rfl⟩ := List.mem_map.mp hp
      rw [hdata]
      exact Option.isSome_iff_ne_none.mp hcached)
  obtain ⟨sent, hsent⟩ : ∃ sent, Vllm.sendRequest getItemSize process c inputs = .ok (sent, c') := by
    rw [Vllm.sendRequest, mergeMmKwargs_eq, hok, Result.ok_bind]
    exact ⟨_, rfl⟩
  refine ⟨sent, c', hsent, hc'.settle fun h hh => ?_, hmax'.trans hmax⟩
  rw [← MmInputs.map_fst_flagged c inputs] at hh
  obtain ⟨p, hp, rfl⟩ := List.mem_map.mp hh
  exact hstored p hp

end Sender

namespace CachePair

variable {Item Updates : Type u} {getItemSize : Item → Nat} {process : κ → Item × Updates}
variable {maxsize : Nat}

/-- Both caches hold the same hashes, and P1 returned for each feature the item its hash names. -/
structure Mirrored (process : κ → Item × Updates) (t : CachePair κ Item Updates) : Prop where
  keys : ∀ h, t.sender.contains h = t.receiver.contains h
  served : ∀ p ∈ t.served, p.2 = (process p.1).1

structure Inv (getItemSize : Item → Nat) (process : κ → Item × Updates) (maxsize : Nat)
    (t : CachePair κ Item Updates) : Prop where
  mirrors : Mirrors getItemSize process t.sender t.receiver
  sending : Sending getItemSize process [] t.sender
  maxsize : t.sender.maxsize = maxsize
  served : ∀ p ∈ t.served, p.2 = (process p.1).1

theorem Inv.mirrored {t : CachePair κ Item Updates} (ht : Inv getItemSize process maxsize t) :
    Mirrored process t where
  keys := by
    intro h
    have := congrArg Option.isSome (ht.mirrors.sizes h)
    rw [Option.isSome_map, Option.isSome_map] at this
    exact this
  served := ht.served

/-- The requests on which the caches stay in step. -/
def Allowed (getItemSize : Item → Nat) (process : κ → Item × Updates) (maxsize : Nat)
    (inputs : MmInputs κ) : Prop :=
  inputs.InPromptOrder ∧ inputs.Fit getItemSize process maxsize

theorem Inv.serve {t : CachePair κ Item Updates} {inputs : MmInputs κ}
    (ht : Inv getItemSize process maxsize t)
    (hinputs : Allowed getItemSize process maxsize inputs) :
    ∃ t', t.serve getItemSize process inputs = .ok t' ∧ Inv getItemSize process maxsize t' := by
  obtain ⟨sent, c₀, hsend, hc₀, hmax⟩ := ht.sending.sendRequest (ht.maxsize ▸ hinputs.2)
  obtain ⟨c₁, hserve, hm⟩ := ht.mirrors.serve hinputs.1 hsend
  refine ⟨_, hserve, hm, hc₀, hmax.trans ht.maxsize, fun p hp => ?_⟩
  obtain ⟨h, -, rfl⟩ := List.mem_map.mp hp
  rfl

/-- On such requests P0 and P1 never fail, and the caches agree after each of them. -/
theorem mirrored_of_allowed {requests : List (MmInputs κ)}
    (hrequests : ∀ inputs ∈ requests, Allowed getItemSize process maxsize inputs) :
    (∃ t, runSteps (CachePair.serve getItemSize process) (.init maxsize) requests = .ok t) ∧
      Throughout (CachePair.serve getItemSize process) (Mirrored process) (.init maxsize)
        requests := by
  have hinit : Inv getItemSize process maxsize (.init maxsize) :=
    ⟨.init maxsize, .init maxsize, rfl, nofun⟩
  have hguard : Guarded (CachePair.serve getItemSize process)
      (fun _ inputs => Allowed getItemSize process maxsize inputs ∧ True) (.init maxsize) requests :=
    (guarded_true _ _).and_mem hrequests
  constructor
  · obtain ⟨t, ht, -⟩ := run_ok_of_inv (fun t inputs ht hin => ht.serve hin.1) hinit hguard
    exact ⟨t, ht⟩
  · refine throughout_of_inv (fun t inputs t' ht hin hok => ?_) (fun t ht => ht.mirrored) hinit hguard
    obtain ⟨t'', hok', ht'⟩ := ht.serve hin.1
    rw [hok] at hok'
    cases hok'
    exact ht'

def unitItem (h : String) : String × Unit := (h, ())

def oneModality : List (MmInputs String) :=
  [[("image", [⟨"a", 0⟩, ⟨"v", 1⟩])], [("image", [⟨"b", 0⟩])], [("image", [⟨"v", 0⟩])]]

theorem mirrored_oneModality :
    (∃ t, runSteps (CachePair.serve (fun _ => 1) unitItem) (.init 2) oneModality = .ok t) ∧
      Throughout (CachePair.serve (fun _ => 1) unitItem) (Mirrored unitItem) (.init 2)
        oneModality :=
  mirrored_of_allowed (by
    intro inputs hin
    simp only [oneModality, List.mem_cons, List.not_mem_nil, or_false] at hin
    rcases hin with rfl | rfl | rfl <;> exact ⟨by decide, by decide⟩)

/-- The first request has a video before its image, so P0 evicts the image for the third item and P1
the video. -/
def twoModalities : List (MmInputs String) :=
  [[("image", [⟨"a", 1⟩]), ("video", [⟨"v", 0⟩])], [("image", [⟨"b", 0⟩])], [("video", [⟨"v", 0⟩])]]

theorem not_mirrored_twoModalities : (∀ inputs ∈ twoModalities, ∀ h ∈ inputs.hashes,
      namedSize (fun _ => 1) unitItem h < 2) ∧
    runSteps (CachePair.serve (fun _ => 1) unitItem) (.init 2) twoModalities =
      .error (.assertionError "Expected a cached item for mm_hash") ∧
    ¬ Throughout (CachePair.serve (fun _ => 1) unitItem) (Mirrored unitItem) (.init 2)
      twoModalities := by
  refine ⟨by decide, Result.eq_error_of_raises (by decide +kernel), fun h => ?_⟩
  obtain ⟨t, ht, hkeys⟩ := Result.exists_of_holds
    (x := runSteps (CachePair.serve (fun _ => 1) unitItem) (.init 2) (twoModalities.take 2))
    (p := fun t => t.sender.contains "v" ≠ t.receiver.contains "v") (by decide +kernel)
  rw [← List.take_append_drop 2 twoModalities] at h
  exact of_decide_eq_true hkeys ((h.of_append.last ht).keys "v")

end CachePair

end Vllm
