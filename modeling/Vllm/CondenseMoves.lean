import Vllm.BatchShape

namespace Vllm.Worker

namespace InputBatch

variable {F F32 G E : Type} {c : InputBatchConfig F F32} {b b' b'' : InputBatch F F32 G E}
variable {i j n last e : Nat} {id : ReqId}

def holder (b : InputBatch F F32 G E) (i : Nat) : Option ReqId := b.reqIds[i]?.join

theorem holder_eq_some : b.holder i = some id ↔ b.reqIds[i]? = some (some id) := by
  rw [holder, Option.join_eq_some_iff]

theorem holder_eq_none : b.holder i = none ↔ ¬ b.Occupied i := by
  rw [Occupied, Option.eq_none_iff_forall_ne_some, not_exists]
  exact forall_congr' fun id => not_congr holder_eq_some

/-- The moves of indices not above `last`, each as source and target: the last requests with the
smallest removed indices, as long as that leads down. -/
def movesBelow (b : InputBatch F F32 G E) (last : Nat) (removed : List Nat) : List (Nat × Nat) :=
  (((List.range (last + 1)).filter fun j => b.Occupied j).reverse.zip removed.reverse).filter
    fun m => m.2 < m.1

def condenseMoves (b : InputBatch F F32 G E) : List (Nat × Nat) :=
  b.movesBelow b.reqIds.length b.batchUpdateBuilder.ensureRemovedSorted.removed

structure Relocated (ms : List (Nat × Nat)) (b b' : InputBatch F F32 G E) : Prop where
  arrived : ∀ m ∈ ms, b'.holder m.2 = b.holder m.1
  gone : ∀ m ∈ ms, b'.holder m.1 = none
  stay : ∀ j, (∀ m ∈ ms, m.1 ≠ j ∧ m.2 ≠ j) → b'.holder j = b.holder j
  embeds : ∀ m ∈ ms, b'.reqPromptEmbeds.get? m.2 =
    (b.reqPromptEmbeds.get? m.1).or (b.reqPromptEmbeds.get? m.2)
  embedsGone : ∀ m ∈ ms, b'.reqPromptEmbeds.get? m.1 = none
  embedsStay : ∀ j, (∀ m ∈ ms, m.1 ≠ j ∧ m.2 ≠ j) →
    b'.reqPromptEmbeds.get? j = b.reqPromptEmbeds.get? j
  flags : b'.logitsProcessingNeedsTokenIds = b.logitsProcessingNeedsTokenIds

theorem Relocated.nil (hids : ∀ j, b'.holder j = b.holder j)
    (hembeds : b'.reqPromptEmbeds = b.reqPromptEmbeds)
    (hflags : b'.logitsProcessingNeedsTokenIds = b.logitsProcessingNeedsTokenIds) :
    Relocated [] b b' where
  arrived := nofun
  gone := nofun
  stay := fun j _ => hids j
  embeds := nofun
  embedsGone := nofun
  embedsStay := fun j _ => by rw [hembeds]
  flags := hflags

theorem Relocated.cons {ms : List (Nat × Nat)} {s t : Nat} (hm : Relocated [(s, t)] b b')
    (h : Relocated ms b' b'') (hms : ∀ m ∈ ms, t < m.2 ∧ m.2 < m.1 ∧ m.1 < s) :
    Relocated ((s, t) :: ms) b b'' := by
  have hs : ∀ m ∈ ms, m.1 ≠ s ∧ m.2 ≠ s := by
    intro m hmem
    have := hms m hmem
    omega
  have ht : ∀ m ∈ ms, m.1 ≠ t ∧ m.2 ≠ t := by
    intro m hmem
    have := hms m hmem
    omega
  have hother : ∀ m ∈ ms, ∀ m' ∈ [(s, t)], (m'.1 ≠ m.1 ∧ m'.2 ≠ m.1) ∧
      m'.1 ≠ m.2 ∧ m'.2 ≠ m.2 := by
    intro m hmem m' hm'
    rw [List.mem_singleton.mp hm']
    have := hms m hmem
    omega
  constructor
  case arrived =>
    refine List.forall_mem_cons.mpr ⟨?_, fun m hmem => ?_⟩
    · exact (h.stay t ht).trans (hm.arrived (s, t) (List.mem_singleton_self _))
    · exact (h.arrived m hmem).trans (hm.stay m.1 fun m' hm' => (hother m hmem m' hm').1)
  case gone =>
    refine List.forall_mem_cons.mpr ⟨?_, h.gone⟩
    exact (h.stay s hs).trans (hm.gone (s, t) (List.mem_singleton_self _))
  case stay =>
    intro j hj
    obtain ⟨hj, hjs⟩ := List.forall_mem_cons.mp hj
    exact (h.stay j hjs).trans (hm.stay j (by simpa using hj))
  case embeds =>
    refine List.forall_mem_cons.mpr ⟨?_, fun m hmem => ?_⟩
    · exact (h.embedsStay t ht).trans (hm.embeds (s, t) (List.mem_singleton_self _))
    · rw [h.embeds m hmem, hm.embedsStay m.1 fun m' hm' => (hother m hmem m' hm').1,
        hm.embedsStay m.2 fun m' hm' => (hother m hmem m' hm').2]
  case embedsGone =>
    refine List.forall_mem_cons.mpr ⟨?_, h.embedsGone⟩
    exact (h.embedsStay s hs).trans (hm.embedsGone (s, t) (List.mem_singleton_self _))
  case embedsStay =>
    intro j hj
    obtain ⟨hj, hjs⟩ := List.forall_mem_cons.mp hj
    exact (h.embedsStay j hjs).trans (hm.embedsStay j (by simpa using hj))
  case flags => exact h.flags.trans hm.flags

theorem Relocated.trim {ms : List (Nat × Nat)} (h : Relocated ms b b')
    (hholder : ∀ j, (b'.trim n).holder j = b'.holder j) : Relocated ms b (b'.trim n) where
  arrived := fun m hm => (hholder m.2).trans (h.arrived m hm)
  gone := fun m hm => (hholder m.1).trans (h.gone m hm)
  stay := fun j hj => (hholder j).trans (h.stay j hj)
  embeds := h.embeds
  embedsGone := h.embedsGone
  embedsStay := h.embedsStay
  flags := h.flags

section Move

theorem moveRequest_eq (h : b.moveRequest c last e = .ok b') :
    ∃ id, b.reqIds[last]? = some (some id) ∧
      b'.reqIds = (b.reqIds.set e (some id)).set last none ∧
      b'.reqIdToIndex = b.reqIdToIndex.set id e ∧
      b'.reqOutputTokenIds.length = b.reqOutputTokenIds.length ∧
      b'.specTokenIds.length = b.specTokenIds.length ∧
      b'.reqPromptEmbeds = moveEntry b.reqPromptEmbeds last e ∧
      b'.logitsProcessingNeedsTokenIds = b.logitsProcessingNeedsTokenIds ∧
      b'.batchUpdateBuilder.removed = b.batchUpdateBuilder.removed ∧
      b'.batchUpdateBuilder.isRemovedSorted = b.batchUpdateBuilder.isRemovedSorted := by
  unfold moveRequest at h
  simp only [Result.bind_eq_ok, Result.getItem_eq_ok] at h
  obtain ⟨id?, hid, output, -, h⟩ := h
  cases id? with
  | none => cases h
  | some id =>
    simp only [Result.bind_eq_ok, Result.getItem_eq_ok] at h
    obtain ⟨spec, -, h⟩ := h
    have hlen : ∀ {α : Type} (l : List α) (x y : α),
        ((l.set e x).set last y).length = l.length := by
      intro α l x y
      rw [List.length_set, List.length_set]
    refine ⟨id, hid, ?_⟩
    split at h <;> cases h <;>
      exact ⟨rfl, rfl, hlen _ _ _, hlen _ _ _, rfl, rfl, rfl, rfl⟩

theorem get?_moveEntry_or {α : Type} {d : Dict Nat α} :
    (moveEntry d last e).get? e = (d.get? last).or (d.get? e) := by
  unfold moveEntry
  split
  · rename_i v hv
    rw [Dict.get?_set, if_pos rfl, hv]
    rfl
  · rename_i hv
    rw [hv]
    rfl

structure Walking (b : InputBatch F F32 G E) (last : Nat) : Prop where
  shaped : b.Shaped
  sorted : b.batchUpdateBuilder.isRemovedSorted = true
  order : b.batchUpdateBuilder.removed.Pairwise (· > ·)
  free : ∀ i ∈ b.batchUpdateBuilder.removed, ¬ b.Occupied i
  below : ∀ i ≤ last, b.reqIds[i]? = some none → i ∈ b.batchUpdateBuilder.removed
  above : ∀ i > last, ¬ b.Occupied i

theorem holder_of_move (h : b'.reqIds = (b.reqIds.set e (some id)).set last none)
    (he : e < b.reqIds.length) (hlast : last < b.reqIds.length) (j : Nat) :
    b'.holder j = if j = last then none else if j = e then some id else b.holder j := by
  unfold holder
  rw [h, List.getElem?_set, List.length_set, List.getElem?_set]
  by_cases hjl : last = j
  · rw [if_pos hjl, if_pos (hjl ▸ hlast), if_pos hjl.symm]
    rfl
  · rw [if_neg hjl, if_neg (Ne.symm hjl)]
    by_cases hje : e = j
    · rw [if_pos hje, if_pos (hje ▸ he), if_pos hje.symm]
      rfl
    · rw [if_neg hje, if_neg (Ne.symm hje)]

theorem occupied_of_move (h : b'.reqIds = (b.reqIds.set e (some id)).set last none)
    (he : e < b.reqIds.length) (hlast : last < b.reqIds.length) (hne : last ≠ e) (i : Nat) :
    b'.Occupied i ↔ i ≠ last ∧ (b.Occupied i ∨ i = e) := by
  rw [← not_iff_not, ← holder_eq_none, holder_of_move h he hlast]
  by_cases hil : i = last
  · simp [hil]
  · by_cases hie : i = e
    · simp [hie, Ne.symm hne]
    · simp [hil, hie, holder_eq_none]

theorem relocated_of_move (h : b'.reqIds = (b.reqIds.set e (some id)).set last none)
    (he : e < b.reqIds.length) (hid : b.reqIds[last]? = some (some id)) (hne : last ≠ e)
    (hembeds : b'.reqPromptEmbeds = moveEntry b.reqPromptEmbeds last e)
    (hflags : b'.logitsProcessingNeedsTokenIds = b.logitsProcessingNeedsTokenIds) :
    Relocated [(last, e)] b b' := by
  have hholder := holder_of_move h he (List.getElem?_eq_some_iff.mp hid).1
  constructor
  case arrived =>
    intro m hm
    rw [List.mem_singleton.mp hm]
    simp only [hholder, Ne.symm hne, if_false, if_true]
    exact (holder_eq_some.mpr hid).symm
  case gone =>
    intro m hm
    rw [List.mem_singleton.mp hm]
    simp only [hholder, if_true]
  case stay =>
    intro j hj
    obtain ⟨hjl, hje⟩ := hj (last, e) (List.mem_singleton_self _)
    rw [hholder, if_neg (Ne.symm hjl), if_neg (Ne.symm hje)]
  case embeds =>
    intro m hm
    rw [List.mem_singleton.mp hm, hembeds]
    exact get?_moveEntry_or
  case embedsGone =>
    intro m hm
    rw [List.mem_singleton.mp hm, hembeds]
    exact get?_moveEntry_src hne
  case embedsStay =>
    intro j hj
    obtain ⟨hjl, hje⟩ := hj (last, e) (List.mem_singleton_self _)
    rw [hembeds]
    exact get?_moveEntry_of_ne (Ne.symm hjl) (Ne.symm hje)
  case flags => exact hflags

theorem Shaped.moved (h : b.Shaped) (hid : b.reqIds[last]? = some (some id))
    (hfree : ¬ b.Occupied e) (hne : last ≠ e) (he : e < b.reqIds.length)
    (hids : b'.reqIds = (b.reqIds.set e (some id)).set last none)
    (hindex : b'.reqIdToIndex = b.reqIdToIndex.set id e)
    (houtputs : b'.reqOutputTokenIds.length = b.reqOutputTokenIds.length)
    (hspecs : b'.specTokenIds.length = b.specTokenIds.length) : b'.Shaped := by
  have hholder := holder_of_move hids he (List.getElem?_eq_some_iff.mp hid).1
  constructor
  case index =>
    intro x j
    rw [← holder_eq_some, hholder, hindex, Dict.get?_set]
    by_cases hx : id = x
    · subst hx
      rw [if_pos rfl, Option.some.injEq]
      split
      · rename_i hj
        simp [hj, Ne.symm hne]
      · rename_i hjl
        split
        · rename_i hj
          simp [hj]
        · rename_i hje
          refine iff_of_false (Ne.symm hje) fun hj => hjl ?_
          exact h.injective (holder_eq_some.mp hj) hid
    · rw [if_neg hx, h.index, ← holder_eq_some]
      split
      · rename_i hj
        rw [hj, holder_eq_some.mpr hid]
        simp [hx]
      · split
        · rename_i hj
          rw [hj, holder_eq_none.mpr hfree]
          simp [hx]
        · rfl
  case lists =>
    have hlen : b'.reqIds.length = b.reqIds.length := by
      rw [hids, List.length_set, List.length_set]
    constructor
    · rw [hlen]
      exact houtputs.trans h.lists.outputs
    · rw [hlen]
      exact h.lists.specs.trans_eq hspecs.symm

namespace Walking

theorem withBuilder (h : b.Walking last) {rest : List Nat}
    (hrest : b.batchUpdateBuilder.removed = rest ++ [e]) :
    b.batchUpdateBuilder.popRemoved.2 =
      { b.batchUpdateBuilder with removed := rest, isRemovedSorted := true } :=
  (BatchUpdateBuilder.removed_of_sorted h.sorted hrest).2

theorem occupied (h : b.Walking last) (hi : i ≤ last) (hlt : i < b.reqIds.length)
    (hnot : i ∉ b.batchUpdateBuilder.removed) : b.Occupied i := by
  rcases b.occupied_or i with hocc | hempty | hge
  · exact hocc
  · exact absurd (h.below i hi hempty) hnot
  · exact absurd hlt (Nat.not_lt.mpr hge)

theorem skip (h : b.Walking (last + 1)) (hmem : last + 1 ∈ b.batchUpdateBuilder.removed) :
    b.Walking last where
  shaped := h.shaped
  sorted := h.sorted
  order := h.order
  free := h.free
  below := fun i hi => h.below i (Nat.le_succ_of_le hi)
  above := by
    intro i hi
    by_cases heq : i = last + 1
    · rw [heq]
      exact h.free _ hmem
    · exact h.above i (by omega)

theorem largestNonEmpty (h : b.Walking last) :
    b.Walking (largestNonEmpty b.batchUpdateBuilder.removed last) ∧
      InputBatch.largestNonEmpty b.batchUpdateBuilder.removed last ≤ last ∧
      (InputBatch.largestNonEmpty b.batchUpdateBuilder.removed last ∈
          b.batchUpdateBuilder.removed →
        InputBatch.largestNonEmpty b.batchUpdateBuilder.removed last = 0) := by
  induction last with
  | zero => exact ⟨h, Nat.le_refl _, fun _ => rfl⟩
  | succ last ih =>
    unfold InputBatch.largestNonEmpty
    split
    · rename_i hmem
      obtain ⟨hw, hle, hzero⟩ := ih (h.skip hmem)
      exact ⟨hw, Nat.le_succ_of_le hle, hzero⟩
    · rename_i hmem
      exact ⟨h, Nat.le_refl _, fun hmem' => absurd hmem' hmem⟩

theorem notMem_rest (h : b.Walking last) {rest : List Nat} (hrest : b.batchUpdateBuilder.removed = rest ++ [e]) :
    e ∉ rest ∧ rest.Pairwise (· > ·) := by
  have horder := h.order
  rw [hrest] at horder
  obtain ⟨hpairs, -, hlast⟩ := List.pairwise_append.mp horder
  exact ⟨fun hmem => Nat.lt_irrefl e (hlast e hmem e (List.mem_singleton_self e)), hpairs⟩

theorem moved (h : b.Walking last) {rest : List Nat} (hrest : b.batchUpdateBuilder.removed = rest ++ [e])
    (hlt : e < last) (hlastlt : last < b.reqIds.length) (hshaped : b'.Shaped)
    (hids : b'.reqIds = (b.reqIds.set e (some id)).set last none)
    (hremoved : b'.batchUpdateBuilder.removed = rest) (hsorted : b'.batchUpdateBuilder.isRemovedSorted = true) :
    b'.Walking (last - 1) := by
  obtain ⟨hnew, hpairs⟩ := h.notMem_rest hrest
  have hocc := occupied_of_move hids (by omega) hlastlt (Nat.ne_of_gt hlt)
  constructor
  case shaped => exact hshaped
  case sorted => exact hsorted
  case order => rwa [hremoved]
  case free =>
    intro i hi
    rw [hremoved] at hi
    rw [hocc]
    rintro ⟨-, hocc | rfl⟩
    · exact h.free i (by rw [hrest]; exact List.mem_append_left _ hi) hocc
    · exact hnew hi
  case below =>
    intro i hi hempty
    rw [hids, List.getElem?_set, if_neg (by omega), List.getElem?_set] at hempty
    by_cases hie : e = i
    · rw [if_pos hie, if_pos (by omega)] at hempty
      cases hempty
    · rw [if_neg hie] at hempty
      have hmem := h.below i (by omega) hempty
      rw [hrest, List.mem_append, List.mem_singleton] at hmem
      rw [hremoved]
      exact hmem.resolve_right (Ne.symm hie)
  case above =>
    intro i hi
    rw [hocc]
    rintro ⟨hil, hocc | rfl⟩
    · exact h.above i (by omega) hocc
    · omega

theorem moveRequest (h : b.Walking last) {rest : List Nat}
    (hrest : b.batchUpdateBuilder.removed = rest ++ [e]) (hlt : e < last)
    (hok : (b.withBuilder b.batchUpdateBuilder.popRemoved.2).moveRequest c last e = .ok b') :
    b.Occupied last ∧ Relocated [(last, e)] b b' ∧ b'.Walking (last - 1) ∧
      b'.batchUpdateBuilder.removed = rest ∧ b'.numReqs = b.numReqs ∧
      ∀ i < last, b'.Occupied i ↔ b.Occupied i ∨ i = e := by
  rw [h.withBuilder hrest] at hok
  obtain ⟨id, hid, hids, hindex, houtputs, hspecs, hembeds, hflags, hremoved, hsorted⟩ :=
    moveRequest_eq hok
  change b.reqIds[last]? = some (some id) at hid
  change b'.reqIds = (b.reqIds.set e (some id)).set last none at hids
  change b'.reqIdToIndex = b.reqIdToIndex.set id e at hindex
  change b'.batchUpdateBuilder.removed = rest at hremoved
  have hlastlt := (List.getElem?_eq_some_iff.mp hid).1
  have hfree := h.free e (by simp [hrest])
  have hne : last ≠ e := Nat.ne_of_gt hlt
  have hshaped := h.shaped.moved hid hfree hne (by omega) hids hindex houtputs hspecs
  refine ⟨⟨id, hid⟩, relocated_of_move hids (by omega) hid hne hembeds hflags,
    h.moved hrest hlt hlastlt hshaped hids hremoved hsorted, hremoved, ?_, fun i hi => ?_⟩
  · have hset := Dict.size_set b.reqIdToIndex id e
    rw [(h.shaped.index id last).mpr hid, Option.map_some, Option.getD_some] at hset
    rw [numReqs, hindex, numReqs]
    omega
  · rw [occupied_of_move hids (by omega) hlastlt hne]
    exact and_iff_right (Nat.ne_of_lt hi)

end Walking

end Move

section Loop

theorem filter_zip_append {s t ms : List Nat} (h : ∀ x ∈ ms, ∀ y ∈ t, x ≤ y) :
    ((s ++ ms).zip t).filter (fun m => m.2 < m.1) = (s.zip t).filter fun m => m.2 < m.1 := by
  induction s generalizing t with
  | nil =>
    rw [List.nil_append, List.zip_nil_left, List.filter_nil, List.filter_eq_nil_iff]
    rintro ⟨x, y⟩ hm
    have := h x (List.of_mem_zip hm).1 y (List.of_mem_zip hm).2
    simpa using this
  | cons x s ih =>
    cases t with
    | nil => rfl
    | cons y t =>
      have ih := ih fun x hx y hy => h x hx y (List.mem_cons_of_mem _ hy)
      simp only [List.cons_append, List.zip_cons_cons, List.filter_cons, ih]

theorem range_filter_last {p : Nat → Bool} (h : p last = true) :
    ((List.range (last + 1)).filter p).reverse =
      last :: ((List.range last).filter p).reverse := by
  rw [List.range_succ, List.filter_append, List.filter_singleton, h, List.reverse_append]
  rfl

theorem movesBelow_move {rest : List Nat} (hlt : e < last) (hfree : ¬ b.Occupied e)
    (hge : ∀ x ∈ rest, e < x) (hocc : ∀ i < last, b'.Occupied i ↔ b.Occupied i ∨ i = e)
    (hlast : b.Occupied last) :
    b.movesBelow last (rest ++ [e]) = (last, e) :: b'.movesBelow (last - 1) rest := by
  obtain ⟨k, rfl⟩ : ∃ k, last = e + 1 + k := Nat.exists_eq_add_of_le hlt
  have hsplit : List.range (e + 1 + k) =
      List.range e ++ (e :: (List.range k).map (e + 1 + ·)) := by
    rw [List.range_add, List.range_succ, List.append_assoc]
    rfl
  have hlow : ((List.range e).filter fun j => b'.Occupied j) =
      (List.range e).filter fun j => b.Occupied j := by
    refine List.filter_congr fun i hi => ?_
    have hi := List.mem_range.mp hi
    simp only [hocc i (by omega), Nat.ne_of_lt hi, or_false]
  have hhigh : (((List.range k).map (e + 1 + ·)).filter fun j => b'.Occupied j) =
      ((List.range k).map (e + 1 + ·)).filter fun j => b.Occupied j := by
    refine List.filter_congr fun i hi => ?_
    obtain ⟨x, hx, rfl⟩ := List.mem_map.mp hi
    have hx := List.mem_range.mp hx
    have hne : ¬ e + 1 + x = e := by omega
    simp only [hocc (e + 1 + x) (by omega), hne, or_false]
  have hle : ∀ s ∈ ((List.range e).filter fun j => b.Occupied j).reverse,
      ∀ t ∈ rest.reverse, s ≤ t := by
    intro s hs t ht
    have hs := List.mem_range.mp (List.mem_of_mem_filter (List.mem_reverse.mp hs))
    have := hge t (List.mem_reverse.mp ht)
    omega
  have hle' : ∀ s ∈ e :: ((List.range e).filter fun j => b.Occupied j).reverse,
      ∀ t ∈ rest.reverse, s ≤ t :=
    List.forall_mem_cons.mpr ⟨fun t ht => Nat.le_of_lt (hge t (List.mem_reverse.mp ht)), hle⟩
  have he : b'.Occupied e := (hocc e (by omega)).mpr (.inr rfl)
  have hleft := filter_zip_append
    (s := (((List.range k).map (e + 1 + ·)).filter fun j => b.Occupied j).reverse) hle
  have hright := filter_zip_append
    (s := (((List.range k).map (e + 1 + ·)).filter fun j => b.Occupied j).reverse) hle'
  unfold movesBelow
  rw [range_filter_last (by simpa using hlast), List.reverse_append, List.reverse_singleton,
    List.singleton_append, List.zip_cons_cons, List.filter_cons_of_pos (by simpa using hlt),
    show e + 1 + k - 1 + 1 = e + 1 + k by omega, hsplit, List.filter_append, List.filter_append,
    List.filter_cons_of_neg (by simpa using hfree), List.filter_cons_of_pos (by simpa using he),
    hlow, hhigh, List.reverse_append, List.reverse_append, List.reverse_cons, hleft]
  rw [List.append_assoc, List.singleton_append, hright]

theorem movesBelow_congr {last' : Nat} {removed : List Nat} (hle : last' ≤ last)
    (habove : ∀ i > last', ¬ b.Occupied i) :
    b.movesBelow last removed = b.movesBelow last' removed := by
  obtain ⟨k, rfl⟩ := Nat.exists_eq_add_of_le hle
  have hnone : ((List.range k).map (last' + 1 + ·)).filter (fun j => decide (b.Occupied j)) = [] := by
    rw [List.filter_eq_nil_iff]
    intro i hi
    obtain ⟨x, -, rfl⟩ := List.mem_map.mp hi
    simpa using habove (last' + 1 + x) (by omega)
  unfold movesBelow
  rw [show last' + k + 1 = last' + 1 + k by omega, List.range_add, List.filter_append, hnone,
    List.append_nil]

theorem movesBelow_eq {last' : Nat} {removed : List Nat} (h : ∀ i > last, ¬ b.Occupied i)
    (h' : ∀ i > last', ¬ b.Occupied i) :
    b.movesBelow last removed = b.movesBelow last' removed := by
  rcases Nat.le_total last' last with hle | hle
  · exact movesBelow_congr hle h'
  · exact (movesBelow_congr hle h).symm

theorem movesBelow_bounds {removed : List Nat} {m : Nat × Nat}
    (h : m ∈ b.movesBelow last removed) :
    b.Occupied m.1 ∧ m.1 ≤ last ∧ m.2 ∈ removed ∧ m.2 < m.1 := by
  obtain ⟨hzip, hlt⟩ := List.mem_filter.mp h
  obtain ⟨hs, ht⟩ := List.of_mem_zip hzip
  obtain ⟨hs, hocc⟩ := List.mem_filter.mp (List.mem_reverse.mp hs)
  exact ⟨by simpa using hocc, Nat.le_of_lt_succ (List.mem_range.mp hs), List.mem_reverse.mp ht,
    by simpa using hlt⟩

structure Slid (b : InputBatch F F32 G E) : Prop where
  shaped : b.Shaped
  packed : ∃ n, ∀ i, b.Occupied i ↔ i < n
  free : ∀ i ∈ b.batchUpdateBuilder.removed, ¬ b.Occupied i
  nodup : b.batchUpdateBuilder.removed.Nodup
  sorted : b.batchUpdateBuilder.Sorted

theorem Walking.slid (h : b.Walking last) (hn : ∃ n, ∀ i, b.Occupied i ↔ i < n) : b.Slid where
  shaped := h.shaped
  packed := hn
  free := h.free
  nodup := h.order.imp fun hab => (Nat.ne_of_lt hab).symm
  sorted := fun _ => h.order.imp Nat.le_of_lt

theorem Walking.packed_of_nil (h : b.Walking last) (hnil : b.batchUpdateBuilder.removed = []) :
    ∃ n, ∀ i, b.Occupied i ↔ i < n := by
  refine ⟨min (last + 1) b.reqIds.length, fun i => ⟨fun hocc => ?_, fun hi => ?_⟩⟩
  · have := hocc.lt
    have : i ≤ last := Nat.not_lt.mp fun hgt => h.above i hgt hocc
    omega
  · refine h.occupied (by omega) (by omega) ?_
    rw [hnil]
    exact List.not_mem_nil

theorem Walking.relocated_of_nil (h : b.Walking last) (hnil : b.batchUpdateBuilder.removed = []) :
    Relocated (b.movesBelow last b.batchUpdateBuilder.removed) b b ∧ b.Slid := by
  have hmoves : b.movesBelow last b.batchUpdateBuilder.removed = [] := by
    rw [hnil, movesBelow, List.reverse_nil, List.zip_nil_right, List.filter_nil]
  rw [hmoves]
  exact ⟨.nil (fun _ => rfl) rfl rfl, h.slid (h.packed_of_nil hnil)⟩

theorem condenseLoop_relocated {fuel : Nat}
    (hfuel : b.batchUpdateBuilder.removed.length ≤ fuel) (h : b.Walking last)
    (hok : condenseLoop c fuel last b = .ok b') :
    Relocated (b.movesBelow last b.batchUpdateBuilder.removed) b b' ∧ b'.Slid ∧
      b'.numReqs = b.numReqs := by
  induction fuel generalizing last b with
  | zero =>
    cases hok
    obtain ⟨hrel, hslid⟩ :=
      h.relocated_of_nil (List.length_eq_zero_iff.mp (Nat.le_zero.mp hfuel))
    exact ⟨hrel, hslid, rfl⟩
  | succ fuel ih =>
    unfold condenseLoop at hok
    by_cases hnil : b.batchUpdateBuilder.removed = []
    · rw [if_pos hnil] at hok
      cases hok
      obtain ⟨hrel, hslid⟩ := h.relocated_of_nil hnil
      exact ⟨hrel, hslid, rfl⟩
    · rw [if_neg hnil] at hok
      obtain ⟨hw, hle, hzero⟩ := h.largestNonEmpty
      generalize largestNonEmpty b.batchUpdateBuilder.removed last = last' at hw hle hzero hok
      rw [movesBelow_congr hle hw.above]
      obtain ⟨rest, e, hrest⟩ : ∃ rest e, b.batchUpdateBuilder.removed = rest ++ [e] :=
        ⟨_, _, (List.dropLast_append_getLast hnil).symm⟩
      obtain ⟨hpeek, -⟩ := BatchUpdateBuilder.removed_of_sorted hw.sorted hrest
      have horder := hw.order
      rw [hrest] at horder
      have hmin : ∀ x ∈ rest, e < x := fun x hx =>
        (List.pairwise_append.mp horder).2.2 x hx e (List.mem_singleton_self e)
      have hmem : e ∈ b.batchUpdateBuilder.removed := by simp [hrest]
      have hge : ∀ x ∈ b.batchUpdateBuilder.removed, e ≤ x := by
        intro x hx
        rw [hrest, List.mem_append, List.mem_singleton] at hx
        exact hx.elim (fun hx => Nat.le_of_lt (hmin x hx)) fun hx => hx ▸ Nat.le_refl _
      simp only [hpeek] at hok
      split at hok
      · -- the smallest removed index is behind the last request: no pair leads down
        rename_i hstop
        cases hok
        have hmoves : b.movesBelow last' b.batchUpdateBuilder.removed = [] := by
          refine List.eq_nil_iff_forall_not_mem.mpr fun m hm => ?_
          obtain ⟨-, hs, ht, hlt⟩ := movesBelow_bounds hm
          have := hge m.2 ht
          omega
        have hpacked : ∃ n, ∀ i, b.Occupied i ↔ i < n := by
          by_cases hin : last' ∈ b.batchUpdateBuilder.removed
          · refine ⟨0, fun i => iff_of_false (fun hocc => ?_) (Nat.not_lt_zero i)⟩
            have : i ≤ last' := Nat.not_lt.mp fun hgt => hw.above i hgt hocc
            have : last' = 0 := hzero hin
            have heq : i = last' := by omega
            exact hw.free last' hin (heq ▸ hocc)
          · refine ⟨min (last' + 1) b.reqIds.length, fun i => ⟨fun hocc => ?_, fun hi => ?_⟩⟩
            · have := hocc.lt
              have : i ≤ last' := Nat.not_lt.mp fun hgt => hw.above i hgt hocc
              omega
            · refine hw.occupied (by omega) (by omega) fun hi' => ?_
              have := hge i hi'
              have heq : i = last' := by omega
              exact hin (heq ▸ hi')
        rw [hmoves]
        exact ⟨.nil (fun _ => rfl) rfl rfl, hw.slid hpacked, rfl⟩
      · rename_i hlt
        have hlt : e < last' := Nat.not_le.mp hlt
        rw [Result.bind_eq_ok] at hok
        obtain ⟨b₁, hmove, hok⟩ := hok
        obtain ⟨hocc, hrel, hw₁, hremoved, hnum, hsame⟩ := hw.moveRequest hrest hlt hmove
        have hlen : b₁.batchUpdateBuilder.removed.length ≤ fuel := by
          rw [hrest, List.length_append, List.length_singleton] at hfuel
          rw [hremoved]
          omega
        obtain ⟨hrest', hslid, hnum'⟩ := ih hlen hw₁ hok
        rw [hremoved] at hrest'
        rw [hrest, movesBelow_move hlt (hw.free e hmem) hmin hsame hocc]
        refine ⟨hrel.cons hrest' fun m hm => ?_, hslid, hnum'.trans hnum⟩
        obtain ⟨-, hs, ht, hlt'⟩ := movesBelow_bounds hm
        have := hmin m.2 ht
        omega

theorem Slid.trim (h : b.Slid) (hnum : b.numReqs = n) :
    (∀ j, (b.trim n).holder j = b.holder j) ∧ (b.trim n).Shaped ∧ (b.trim n).Gaps := by
  obtain ⟨k, hn⟩ := h.packed
  obtain rfl : k = n := (h.shaped.numReqs_eq hn).symm.trans hnum
  have hlen : k ≤ b.reqIds.length := by
    rcases Nat.eq_zero_or_pos k with rfl | hpos
    · exact Nat.zero_le _
    · have := ((hn (k - 1)).mpr (by omega)).lt
      omega
  have hslot : ∀ j, (b.trim k).reqIds[j]? = if j < k then b.reqIds[j]? else none := by
    intro j
    show (b.reqIds.take k)[j]? = _
    rw [List.getElem?_take]
  have hholder : ∀ j, (b.trim k).holder j = b.holder j := by
    intro j
    rw [holder, hslot]
    split
    · rfl
    · rename_i hj
      exact (holder_eq_none.mpr fun hocc => hj ((hn j).mp hocc)).symm
  refine ⟨hholder, ⟨fun id i => ?_, ?_, ?_⟩, ⟨fun i hi => ?_, fun i hi hocc => ?_, h.nodup,
    h.sorted⟩⟩
  · rw [← holder_eq_some, hholder, holder_eq_some]
    exact h.shaped.index id i
  · have := h.shaped.lists.outputs
    simp only [InputBatch.trim, List.length_take]
    omega
  · have := h.shaped.lists.specs
    simp only [InputBatch.trim, List.length_take]
    omega
  · rw [hslot] at hi
    split at hi
    · rename_i hlt
      obtain ⟨id, hid⟩ := (hn i).mpr hlt
      rw [hid] at hi
      cases hi
    · cases hi
  · refine h.free i hi ?_
    obtain ⟨id, hid⟩ := hocc
    exact ⟨id, holder_eq_some.mp ((hholder i).symm.trans (holder_eq_some.mpr hid))⟩

theorem Gaps.length_le (h : b.Gaps) (hs : b.Shaped) :
    b.reqIds.length ≤ b.numReqs + b.batchUpdateBuilder.removed.length := by
  have hsub : List.range b.reqIds.length ⊆
      b.reqIdToIndex.values ++ b.batchUpdateBuilder.removed := by
    intro i hi
    rw [List.mem_append]
    rcases b.occupied_or i with ⟨id, hid⟩ | hempty | hge
    · exact .inl (Dict.mem_values.mpr ⟨id, (hs.index id i).mpr hid⟩)
    · exact .inr (h.empty i hempty)
    · exact absurd (List.mem_range.mp hi) (Nat.not_lt.mpr hge)
  have hlen := (List.subperm_of_subset List.nodup_range hsub).length_le
  rw [List.length_range, List.length_append, Dict.values, List.length_map] at hlen
  exact hlen

theorem Gaps.walking (h : b.Gaps) (hs : b.Shaped) {u : BatchUpdateBuilder F}
    (hu : u.isRemovedSorted = true) (hperm : u.removed.Perm b.batchUpdateBuilder.removed)
    (hsorted : u.removed.Pairwise (· ≥ ·)) :
    (b.withBuilder u).Walking (b.numReqs + u.removed.length - 1) where
  shaped := ⟨hs.index, hs.lists.outputs, hs.lists.specs⟩
  sorted := hu
  order := hsorted.imp₂ (fun _ _ hge hne => Nat.lt_of_le_of_ne hge (Ne.symm hne))
    (hperm.nodup_iff.mpr h.nodup)
  free := fun i hi => h.free i (hperm.mem_iff.mp hi)
  below := fun i _ hi => hperm.mem_iff.mpr (h.empty i hi)
  above := by
    intro i hi hocc
    have hlt : i < b.reqIds.length := hocc.lt
    have hle := h.length_le hs
    have := hperm.length_eq
    omega

theorem Relocated.of_withBuilder {ms : List (Nat × Nat)} {u : BatchUpdateBuilder F}
    (h : Relocated ms (b.withBuilder u) b') : Relocated ms b b' :=
  ⟨h.arrived, h.gone, h.stay, h.embeds, h.embedsGone, h.embedsStay, h.flags⟩

theorem condense_relocated (h : b.Gaps) (hs : b.Shaped) (hok : b.condense c = .ok b') :
    Relocated b.condenseMoves b b' ∧ b'.Shaped ∧ b'.Gaps := by
  obtain ⟨u, hu, husorted, hperm, hsorted⟩ : ∃ u, b.batchUpdateBuilder.ensureRemovedSorted = u ∧
      u.isRemovedSorted = true ∧ u.removed.Perm b.batchUpdateBuilder.removed ∧
      u.removed.Pairwise (· ≥ ·) := by
    obtain ⟨removed, hu, hperm, hsorted⟩ := BatchUpdateBuilder.ensureRemovedSorted_spec h.sorted
    exact ⟨_, hu, rfl, hperm, hsorted⟩
  have hgaps : (b.withBuilder u).Gaps :=
    ⟨fun i hi => hperm.mem_iff.mpr (h.empty i hi),
      fun i hi => h.free i (hperm.mem_iff.mp hi), hperm.nodup_iff.mpr h.nodup, fun _ => hsorted⟩
  have hshaped : (b.withBuilder u).Shaped := ⟨hs.index, hs.lists.outputs, hs.lists.specs⟩
  unfold condense at hok
  unfold condenseMoves
  simp only [hu] at hok ⊢
  split at hok
  · rename_i hnil
    cases hok
    have hmoves : b.movesBelow b.reqIds.length u.removed = [] := by
      rw [hnil, movesBelow, List.reverse_nil, List.zip_nil_right, List.filter_nil]
    rw [hmoves]
    exact ⟨.nil (fun _ => rfl) rfl rfl, hshaped, hgaps⟩
  · split at hok
    · rename_i hzero
      cases hok
      have hnone : ∀ j, ¬ b.Occupied j := by
        rintro j ⟨id, hid⟩
        have hle := Dict.le_total (fun _ => 1) ((hs.index id j).mpr hid)
        rw [← Dict.size_eq_total] at hle
        exact absurd hzero (Nat.ne_of_gt hle)
      have hmoves : b.movesBelow b.reqIds.length u.removed = [] :=
        List.eq_nil_iff_forall_not_mem.mpr fun m hm => hnone _ (movesBelow_bounds hm).1
      have hslid : (b.withBuilder u).Slid :=
        ⟨hshaped, ⟨0, fun j => iff_of_false (hnone j) (Nat.not_lt_zero j)⟩, hgaps.free,
          hgaps.nodup, hgaps.sorted⟩
      obtain ⟨hholder, hshaped, hgaps⟩ := hslid.trim hzero
      rw [hmoves]
      exact ⟨.nil hholder rfl rfl, hshaped, hgaps⟩
    · rw [Result.bind_eq_ok] at hok
      obtain ⟨b₁, hloop, hok⟩ := hok
      cases hok
      have hwalk := h.walking hs husorted hperm hsorted
      obtain ⟨hrel, hslid, hnum⟩ := condenseLoop_relocated (Nat.le_refl _) hwalk hloop
      obtain ⟨hholder, hshaped, hgaps⟩ := hslid.trim hnum
      have hmoves : b.movesBelow b.reqIds.length u.removed =
          (b.withBuilder u).movesBelow (b.numReqs + u.removed.length - 1) u.removed :=
        movesBelow_eq (fun i hi hocc => Nat.lt_asymm hi hocc.lt) hwalk.above
      rw [hmoves]
      exact ⟨(hrel.trim hholder).of_withBuilder, hshaped, hgaps⟩

end Loop

end InputBatch

end Vllm.Worker
