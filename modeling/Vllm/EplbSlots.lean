import Vllm.EplbPlacement

namespace Vllm.Eplb

open Ragged

variable {np : Numpy}

def mask (n : Nat) (S : List Nat) : List Bool := (List.range n).map fun i => decide (i ∈ S)

section Mask

variable {n : Nat} {S : List Nat} {i : Nat}

@[simp] theorem length_mask (n : Nat) (S : List Nat) : (mask n S).length = n := by simp [mask]

theorem getD_mask (d : Bool) (h : i < n) : (mask n S).getD i d = decide (i ∈ S) := by simp [mask, h]

theorem mask_set (h : i < n) : (mask n S).set i true = mask n (S ++ [i]) := by
  apply List.ext_getElem
  · simp
  · intro j hj _
    by_cases hji : j = i
    · subst hji
      simp [mask]
    · rw [List.getElem_set_ne (Ne.symm hji)]
      simp [mask, hji]

theorem priority_map (p : Nat → Bool) (n m : Nat) : priority ((List.range n).map p) m =
    (List.range n).map fun i => if p i then i else m + 1 := by
  apply List.ext_getElem
  · simp [priority]
  · intro i hi _
    simp [priority]

theorem argsort_priority (np : Numpy) (n : Nat) (S : List Nat) :
    ((np.argsort (priority ((mask n S).map not) n)).take (((mask n S).map not).count true)).Perm
      ((List.range n).filter fun i => decide (i ∉ S)) := by
  have hnot : (mask n S).map not = (List.range n).map fun i => decide (i ∉ S) := by
    simp [mask, Function.comp_def]
  have hcount : ((List.range n).map fun i => decide (i ∉ S)).count true =
      (List.range n).countP fun i => decide (i ∉ S) := by
    rw [List.count, List.countP_map]
    refine List.countP_congr fun i _ => ?_
    simp
  rw [hnot, hcount, priority_map]
  have hlen : ((List.range n).map fun i => if decide (i ∉ S) then i else n + 1).length = n := by simp
  have htake := Numpy.argsort_take np
    ((List.range n).map fun i => if decide (i ∉ S) then i else n + 1)
    (p := fun i => decide (i ∉ S)) (by
      intro i j a b ha hb hi hj
      rw [decide_eq_false_iff_not, not_not] at hi
      rw [decide_eq_true_eq] at hj
      obtain ⟨hi', rfl⟩ : i < n ∧ n + 1 = a := by
        have := List.getElem?_eq_some_iff.1 ha
        simpa [hi] using this
      obtain ⟨hj', rfl⟩ : j < n ∧ j = b := by
        have := List.getElem?_eq_some_iff.1 hb
        simpa [hj] using this
      omega)
  rwa [hlen] at htake

theorem append_filter_perm (hS : S.Nodup) (hlt : ∀ i ∈ S, i < n) :
    (S ++ (List.range n).filter fun i => decide (i ∉ S)).Perm (List.range n) := by
  have hin : S.Perm ((List.range n).filter fun i => decide (i ∈ S)) := by
    refine (List.perm_ext_iff_of_nodup hS (List.nodup_range.filter _)).2 fun i => ?_
    rw [List.mem_filter, List.mem_range, decide_eq_true_eq]
    exact ⟨fun h => ⟨hlt i h, h⟩, fun h => h.2⟩
  refine (hin.append_right _).trans ?_
  have hsplit := List.filter_append_perm (fun i => decide (i ∈ S)) (List.range n)
  simpa using hsplit

theorem count_not_mask (hS : S.Nodup) (hlt : ∀ i ∈ S, i < n) :
    ((mask n S).map not).count true = n - S.length := by
  have hlen := (append_filter_perm hS hlt).length_eq
  have htake := (argsort_priority Numpy.insertion n S).length_eq
  rw [List.length_append, List.length_range] at hlen
  rw [List.length_take, (Numpy.argsort_perm _ _).length_eq, List.length_range] at htake
  simp only [priority, List.length_map, List.length_zipIdx, length_mask] at htake
  have hle : ((mask n S).map not).count true ≤ n := by
    refine List.count_le_length.trans ?_
    simp
  omega

end Mask

theorem gpuSlots_eq {α : Type} {row : List α} {slotsPerGpu gpuIdx : Nat} (d : α)
    (h : gpuIdx * slotsPerGpu + slotsPerGpu ≤ row.length) :
    gpuSlots slotsPerGpu gpuIdx row =
      (List.range slotsPerGpu).map fun j => row.getD (gpuIdx * slotsPerGpu + j) d := by
  rw [gpuSlots, Py.slice_natCast _ (by omega), Nat.add_sub_cancel_left]
  apply List.ext_getElem
  · rw [List.length_take, List.length_drop, List.length_map, List.length_range]
    omega
  · intro j hj _
    rw [List.length_take, List.length_drop] at hj
    simp [show gpuIdx * slotsPerGpu + j < row.length by omega]

theorem put_pairs {α β : Type} [Inhabited α] [Inhabited β] {l : List α} {m : List β}
    {ks : List Nat} {xs : List α} {ys : List β} (hl : ∀ k ∈ ks, k < l.length)
    (hm : ∀ k ∈ ks, k < m.length) (hks : ks.Nodup) (hxs : xs.length = ks.length)
    (hys : ys.length = ks.length) :
    ∃ l' m', Numpy.put l ((ks.map fun k : Nat => (k : Int)).zip xs) = .ok l' ∧
      Numpy.put m ((ks.map fun k : Nat => (k : Int)).zip ys) = .ok m' ∧
      l'.length = l.length ∧ m'.length = m.length ∧ ks.map (pairs l' m') = xs.zip ys ∧
      ∀ k, k ∉ ks → pairs l' m' k = pairs l m k := by
  obtain ⟨l', hl', hllen, hlmap, hlother⟩ := Numpy.put_natCast default hl hks hxs
  obtain ⟨m', hm', hmlen, hmmap, hmother⟩ := Numpy.put_natCast default hm hks hys
  refine ⟨l', m', hl', hm', hllen, hmlen, ?_, fun k hk => ?_⟩
  · rw [← hlmap, ← hmmap, List.zip_map']
    rfl
  · rw [pairs, hlother k hk, hmother k hk, pairs]

namespace Reorder

structure Inv (start n len : Nat) (new before : Nat → Int × Nat) (P S : List Nat) (s : Reorder) :
    Prop where
  postPhy2log : s.postPhy2log.length = len
  postPhyReplicasIdx : s.postPhyReplicasIdx.length = len
  used : s.usedNewIndices = mask n S
  preserved : s.preservedPositions = mask n P
  nodup_P : P.Nodup
  nodup_S : S.Nodup
  lt_P : ∀ j ∈ P, j < n
  lt_S : ∀ i ∈ S, i < n
  moved : P.map (fun j => pairs s.postPhy2log s.postPhyReplicasIdx (start + j)) = S.map new
  frame : ∀ k, (∀ j < n, k ≠ start + j) → pairs s.postPhy2log s.postPhyReplicasIdx k = before k

variable {start n len : Nat} {before : Nat → Int × Nat} {P S : List Nat} {s s' : Reorder}
  {oldLocal newLocal : List Int} {newRidx : List Nat} {slotIdx : Nat}

theorem Inv.length_eq {new : Nat → Int × Nat} (h : Inv start n len new before P S s) :
    P.length = S.length := by
  have hlen := congrArg List.length h.moved
  rwa [List.length_map, List.length_map] at hlen

theorem Inv.set {new : Nat → Int × Nat} (h : Inv start n len new before P S s)
    (hslot : slotIdx < n) (hlen : start + n ≤ len) (hP : slotIdx ∉ P) {i : Nat} (hi : i < n)
    (hS : i ∉ S) {e : Int} {r : Nat} (her : new i = (e, r)) :
    Inv start n len new before (P ++ [slotIdx]) (S ++ [i])
      { postPhy2log := s.postPhy2log.set (start + slotIdx) e
        postPhyReplicasIdx := s.postPhyReplicasIdx.set (start + slotIdx) r
        usedNewIndices := s.usedNewIndices.set i true
        preservedPositions := s.preservedPositions.set slotIdx true } where
  postPhy2log := by rw [List.length_set, h.postPhy2log]
  postPhyReplicasIdx := by rw [List.length_set, h.postPhyReplicasIdx]
  used := by rw [h.used, mask_set hi]
  preserved := by rw [h.preserved, mask_set hslot]
  nodup_P := List.nodup_append.2 ⟨h.nodup_P, List.nodup_singleton _, by
    intro a ha b hb hab
    rw [List.mem_singleton] at hb
    exact hP (hb ▸ hab ▸ ha)⟩
  nodup_S := List.nodup_append.2 ⟨h.nodup_S, List.nodup_singleton _, by
    intro a ha b hb hab
    rw [List.mem_singleton] at hb
    exact hS (hb ▸ hab ▸ ha)⟩
  lt_P := by
    intro j hj
    rcases List.mem_append.1 hj with hj | hj
    · exact h.lt_P j hj
    · rwa [List.mem_singleton.1 hj]
  lt_S := by
    intro j hj
    rcases List.mem_append.1 hj with hj | hj
    · exact h.lt_S j hj
    · rwa [List.mem_singleton.1 hj]
  moved := by
    have hself : start + slotIdx < len := by omega
    rw [List.map_append, List.map_append, List.map_singleton, List.map_singleton, her,
      pairs_set_self (h.postPhy2log ▸ hself) (h.postPhyReplicasIdx ▸ hself), ← h.moved]
    refine congrArg (· ++ [(e, r)]) (List.map_congr_left fun j hj => pairs_set_ne ?_)
    intro heq
    exact hP (Nat.add_left_cancel heq ▸ hj)
  frame := by
    intro k hk
    rw [pairs_set_ne (hk slotIdx hslot)]
    exact h.frame k hk

theorem Inv.preserve (h : Inv start n len (pairs newLocal newRidx) before P S s)
    (hnew : newLocal.length = n) (hridx : newRidx.length = n) (hslot : slotIdx < n)
    (hlen : start + n ≤ len) (hP : slotIdx ∉ P) (hold : slotIdx < oldLocal.length) :
    ∃ s', s.preserve start oldLocal newLocal newRidx slotIdx = .ok s' ∧
      (s' = s ∨ ∃ i, Inv start n len (pairs newLocal newRidx) before (P ++ [slotIdx]) (S ++ [i])
        s') := by
  generalize hmatch : newLocal.zipWith (fun new used => new == oldLocal[slotIdx] && !used)
    s.usedNewIndices = isMatch
  have hrow : isMatch = (List.range n).map fun k =>
      newLocal.getD k 0 == oldLocal[slotIdx] && !(mask n S).getD k true := by
    rw [← hmatch, h.used, Numpy.zipWith_eq_map_range _ 0 true (by rw [length_mask, hnew]), hnew]
  by_cases hany : isMatch.any id = true
  · have hmem : true ∈ isMatch := by simpa using hany
    have hi := List.idxOf_lt_length_iff.2 hmem
    have hget := List.getElem_idxOf hi
    generalize hidx : isMatch.idxOf true = i at hi hget
    have hin : i < n := by
      rwa [hrow, List.length_map, List.length_range] at hi
    have hfree : i ∉ S := by
      simp only [hrow, List.getElem_map, List.getElem_range, Bool.and_eq_true] at hget
      intro hS
      rw [getD_mask _ hin] at hget
      simp [hS] at hget
    have hi' : i < newLocal.length := hnew ▸ hin
    have hi'' : i < newRidx.length := hridx ▸ hin
    refine ⟨_, ?_, .inr ⟨i, h.set hslot hlen hP hin hfree (e := newLocal[i]) (r := newRidx[i]) ?_⟩⟩
    · simp [Reorder.preserve, Result.getItem, hold, hmatch, hany, hidx, hi', hi'', bind,
        Except.bind, pure, Except.pure]
    · rw [pairs, List.getD_eq_getElem _ _ hi', List.getD_eq_getElem _ _ hi'']
  · refine ⟨s, ?_, .inl rfl⟩
    simp [Reorder.preserve, Result.getItem, hold, hmatch, hany, bind, Except.bind, pure,
      Except.pure]

theorem Inv.preserves (h : Inv start n len (pairs newLocal newRidx) before [] [] s)
    (hnew : newLocal.length = n) (hridx : newRidx.length = n) (hlen : start + n ≤ len)
    (hold : n ≤ oldLocal.length) :
    ∃ s', (List.range n).foldlM (Reorder.preserve start oldLocal newLocal newRidx) s = .ok s' ∧
      ∃ P S, Inv start n len (pairs newLocal newRidx) before P S s' := by
  obtain ⟨s', hs', P, S, hinv, -⟩ := Result.foldlM_inv
    (f := Reorder.preserve start oldLocal newLocal newRidx) (l := List.range n)
    (I := fun done s => ∃ P S, Inv start n len (pairs newLocal newRidx) before P S s ∧
      ∀ j ∈ P, j ∈ done)
    (by
      rintro done slotIdx todo s hl ⟨P, S, hinv, hP⟩
      have hslot : slotIdx < n := List.mem_range.1 (hl ▸ by simp)
      have hnew' : slotIdx ∉ P := fun hin =>
        Result.notMem_done hl List.nodup_range (hP slotIdx hin)
      obtain ⟨s', hs', rfl | ⟨i, hinv'⟩⟩ :=
        hinv.preserve hnew hridx hslot hlen hnew' (Nat.lt_of_lt_of_le hslot hold)
      · exact ⟨s', hs', P, S, hinv, fun j hj => List.mem_append_left _ (hP j hj)⟩
      · refine ⟨s', hs', _, _, hinv', fun j hj => ?_⟩
        rcases List.mem_append.1 hj with hj | hj
        · exact List.mem_append_left _ (hP j hj)
        · exact List.mem_append_right _ hj)
    ⟨[], [], h, nofun⟩
  exact ⟨s', hs', P, S, hinv⟩

structure Done (start n len : Nat) (new before : Nat → Int × Nat) (post : List Int × List Nat) :
    Prop where
  fst : post.1.length = len
  snd : post.2.length = len
  perm : ((List.range n).map fun j => pairs post.1 post.2 (start + j)).Perm ((List.range n).map new)
  frame : ∀ k, (∀ j < n, k ≠ start + j) → pairs post.1 post.2 k = before k

theorem Inv.fill (h : Inv start n len (pairs newLocal newRidx) before P S s)
    (hnew : newLocal.length = n) (hridx : newRidx.length = n) (hlen : start + n ≤ len) :
    ∃ s', s.fill np start n newLocal newRidx = .ok s' ∧
      Done start n len (pairs newLocal newRidx) before (s'.postPhy2log, s'.postPhyReplicasIdx) := by
  have hS := append_filter_perm h.nodup_S h.lt_S
  have hP := append_filter_perm h.nodup_P h.lt_P
  have hsrc := argsort_priority np n S
  have hdst := argsort_priority np n P
  rw [count_not_mask h.nodup_S h.lt_S] at hsrc
  rw [count_not_mask h.nodup_P h.lt_P, h.length_eq] at hdst
  have hk : min (((mask n S).map not).count true) (((mask n P).map not).count true) =
      n - S.length := by
    rw [count_not_mask h.nodup_S h.lt_S, count_not_mask h.nodup_P h.lt_P, h.length_eq, Nat.min_self]
  simp only [Reorder.fill, h.used, h.preserved, hk]
  generalize (np.argsort (priority ((mask n S).map not) n)).take (n - S.length) = src at hsrc ⊢
  generalize (np.argsort (priority ((mask n P).map not) n)).take (n - S.length) = dst at hdst ⊢
  replace hS := (hsrc.append_left S).trans hS
  replace hP := (hdst.append_left P).trans hP
  have hsrclen := hS.length_eq
  have hdstlen := hP.length_eq
  rw [List.length_append, List.length_range] at hsrclen hdstlen
  have hPS := h.length_eq
  split
  · obtain rfl : src = [] := List.length_eq_zero_iff.1 (by omega)
    obtain rfl : dst = [] := List.length_eq_zero_iff.1 (by omega)
    rw [List.append_nil] at hS hP
    refine ⟨s, rfl, h.postPhy2log, h.postPhyReplicasIdx, ?_, h.frame⟩
    exact (hP.symm.map _).trans (h.moved ▸ hS.map _)
  · have hlt : ∀ i ∈ src, i < n := fun i hi =>
      List.mem_range.1 (hS.mem_iff.1 (List.mem_append_right _ hi))
    have hnodup := hP.nodup_iff.2 List.nodup_range
    rw [List.nodup_append] at hnodup
    have hdstlt : ∀ j ∈ dst, j < n := fun j hj =>
      List.mem_range.1 (hP.mem_iff.1 (List.mem_append_right _ hj))
    have hplaces : (dst.map (start + ·)).Nodup := hnodup.2.1.map fun a b => Nat.add_left_cancel
    have hbound : ∀ k ∈ dst.map (start + ·), k < len := by
      intro k hk
      obtain ⟨j, hj, rfl⟩ := List.mem_map.1 hk
      have := hdstlt j hj
      omega
    have hnewtake := Numpy.take_natCast (l := newLocal) default fun i hi => hnew ▸ hlt i hi
    have hridxtake := Numpy.take_natCast (l := newRidx) default fun i hi => hridx ▸ hlt i hi
    obtain ⟨post, post', hpost, hpost', hlen₁, hlen₂, hmap, hother⟩ := @put_pairs
      _ _ _ _ s.postPhy2log s.postPhyReplicasIdx _
      (src.map fun i => newLocal.getD i default)
      (src.map fun i => newRidx.getD i default)
      (h.postPhy2log ▸ hbound) (h.postPhyReplicasIdx ▸ hbound) hplaces
      (by rw [List.length_map, List.length_map]; omega)
      (by rw [List.length_map, List.length_map]; omega)
    rw [List.map_map] at hpost hpost'
    rw [List.zip_map', List.map_map] at hmap
    refine ⟨{ s with postPhy2log := post, postPhyReplicasIdx := post' }, ?_,
      hlen₁.trans h.postPhy2log, hlen₂.trans h.postPhyReplicasIdx, ?_, fun k hk => ?_⟩
    · rw [hnewtake, Result.ok_bind, hridxtake, Result.ok_bind]
      erw [hpost, Result.ok_bind, hpost', Result.ok_bind]
      rw [h.used, h.preserved]
      rfl
    · have hsame : P.map (fun j => pairs post post' (start + j)) = S.map (pairs newLocal newRidx) := by
        rw [← h.moved]
        refine List.map_congr_left fun j hj => hother _ fun hin => ?_
        obtain ⟨j', hj', heq⟩ := List.mem_map.1 hin
        exact hnodup.2.2 j hj j' hj' (Nat.add_left_cancel heq).symm
      have hall : (P ++ dst).map (fun j => pairs post post' (start + j)) =
          (S ++ src).map (pairs newLocal newRidx) := by
        rw [List.map_append, List.map_append, hsame]
        exact congrArg _ hmap
      exact (hP.symm.map _).trans (hall ▸ hS.map _)
    · rw [hother k fun hin => ?_, h.frame k hk]
      obtain ⟨j, hj, heq⟩ := List.mem_map.1 hin
      exact hk j (hdstlt j hj) heq.symm

end Reorder

section Gpus

variable {phy2log oldPhy2log : List Int} {phyReplicasIdx : List Nat} {n gpuIdx : Nat}
  {post post' : List Int × List Nat}

theorem reorderGpu_ok (hridx : phyReplicasIdx.length = phy2log.length)
    (hlen : gpuIdx * n + n ≤ phy2log.length)
    (hold : n ≤ (gpuSlots n gpuIdx oldPhy2log).length)
    (h₁ : post.1.length = phy2log.length) (h₂ : post.2.length = phy2log.length) :
    ∃ post', reorderGpu np phy2log phyReplicasIdx n oldPhy2log post gpuIdx = .ok post' ∧
      Reorder.Done (gpuIdx * n) n phy2log.length
        (fun j => pairs phy2log phyReplicasIdx (gpuIdx * n + j)) (pairs post.1 post.2) post' := by
  have hnew := gpuSlots_eq default hlen
  have hnewridx := @gpuSlots_eq _ phyReplicasIdx _ _ default (hridx ▸ hlen)
  have hnewlen : (gpuSlots n gpuIdx phy2log).length = n := by rw [hnew]; simp
  have hridxlen : (gpuSlots n gpuIdx phyReplicasIdx).length = n := by rw [hnewridx]; simp
  have hstart : Reorder.Inv (gpuIdx * n) n phy2log.length
      (pairs (gpuSlots n gpuIdx phy2log) (gpuSlots n gpuIdx phyReplicasIdx))
      (pairs post.1 post.2) [] []
      { postPhy2log := post.1
        postPhyReplicasIdx := post.2
        usedNewIndices := List.replicate n false
        preservedPositions := List.replicate n false } :=
    ⟨h₁, h₂, by simp [mask], by simp [mask], .nil, .nil, nofun, nofun, rfl, fun _ _ => rfl⟩
  obtain ⟨s, hs, P, S, hinv⟩ := hstart.preserves hnewlen hridxlen hlen hold
  obtain ⟨s', hs', hdone⟩ := @Reorder.Inv.fill np _ _ _ _ _ _ _ _ _ hinv hnewlen hridxlen hlen
  refine ⟨(s'.postPhy2log, s'.postPhyReplicasIdx), ?_, hdone.fst, hdone.snd, ?_, hdone.frame⟩
  · simp only [reorderGpu, hs, Result.ok_bind, hs']
    rfl
  · refine hdone.perm.trans (List.Perm.of_eq (List.map_congr_left fun j hj => ?_))
    have hj := List.mem_range.1 hj
    rw [pairs, hnew, hnewridx, pairs]
    simp [hj]

theorem le_of_reorderGpu_ok
    (h : reorderGpu np phy2log phyReplicasIdx n oldPhy2log post gpuIdx = .ok post') :
    n ≤ (gpuSlots n gpuIdx oldPhy2log).length := by
  simp only [reorderGpu, Result.bind_eq_ok] at h
  obtain ⟨s, hs, -⟩ := h
  have hall := Result.foldlM_inv_of_ok
    (I := fun done _ => ∀ slotIdx ∈ done, slotIdx < (gpuSlots n gpuIdx oldPhy2log).length)
    (by
      intro done slotIdx todo s s' _ hdone hs'
      simp only [Reorder.preserve, Result.bind_eq_ok, Result.getItem_eq_ok] at hs'
      obtain ⟨old, hold, -⟩ := hs'
      intro j hj
      rcases List.mem_append.1 hj with hj | hj
      · exact hdone j hj
      · rw [List.mem_singleton.1 hj]
        exact (List.getElem?_eq_some_iff.1 hold).1)
    (List.forall_mem_nil _) hs
  rcases Nat.eq_zero_or_pos n with rfl | hpos
  · exact Nat.zero_le _
  · have := hall (n - 1) (List.mem_range.2 (by omega))
    omega

end Gpus

/-- The slots of each GPU are permuted, and with them the whole row. -/
structure PermutesSlots (numRanks : Nat) (phy2log : List Int) (phyReplicasIdx : List Nat)
    (post : List Int × List Nat) : Prop where
  fst : post.1.length = phy2log.length
  snd : post.2.length = phy2log.length
  gpus : ∀ gpuIdx < numRanks,
    (gpuSlots (phy2log.length / numRanks) gpuIdx (post.1.zip post.2)).Perm
      (gpuSlots (phy2log.length / numRanks) gpuIdx (phy2log.zip phyReplicasIdx))
  perm : (post.1.zip post.2).Perm (phy2log.zip phyReplicasIdx)

theorem eq_of_slot_eq {n g g' j j' : Nat} (hj : j < n) (hj' : j' < n)
    (h : g * n + j = g' * n + j') : g = g' := by
  have hdiv := congrArg (· / n) h
  have hpos : 0 < n := Nat.zero_lt_of_lt hj
  simpa [Nat.mul_comm _ n, Nat.mul_add_div hpos, Nat.div_eq_of_lt hj, Nat.div_eq_of_lt hj']
    using hdiv

structure GpusInv (n len : Nat) (orig : Nat → Int × Nat) (done : List Nat)
    (post : List Int × List Nat) : Prop where
  fst : post.1.length = len
  snd : post.2.length = len
  moved : ∀ g ∈ done, ((List.range n).map fun j => pairs post.1 post.2 (g * n + j)).Perm
    ((List.range n).map fun j => orig (g * n + j))
  frame : ∀ k, (∀ g ∈ done, ∀ j < n, k ≠ g * n + j) → pairs post.1 post.2 k = orig k

theorem GpusInv.step {n len : Nat} {orig : Nat → Int × Nat} {done : List Nat} {g : Nat}
    {post post' : List Int × List Nat} (h : GpusInv n len orig done post)
    (hdone : Reorder.Done (g * n) n len (fun j => orig (g * n + j)) (pairs post.1 post.2) post')
    (hg : g ∉ done) : GpusInv n len orig (done ++ [g]) post' where
  fst := hdone.fst
  snd := hdone.snd
  moved := by
    intro g' hg'
    rcases List.mem_append.1 hg' with hg' | hg'
    · have hsame : (List.range n).map (fun j => pairs post'.1 post'.2 (g' * n + j)) =
          (List.range n).map fun j => pairs post.1 post.2 (g' * n + j) := by
        refine List.map_congr_left fun j hj => hdone.frame _ fun j' hj' heq => ?_
        have hgg := eq_of_slot_eq (List.mem_range.1 hj) hj' heq
        exact hg (hgg ▸ hg')
      rw [hsame]
      exact h.moved g' hg'
    · rw [List.mem_singleton.1 hg']
      exact hdone.perm
  frame := by
    intro k hk
    rw [hdone.frame k (hk g (by simp))]
    exact h.frame k fun g' hg' => hk g' (List.mem_append_left _ hg')

theorem slots_le {numRanks n gpuIdx len : Nat} (hlen : len = numRanks * n)
    (hg : gpuIdx < numRanks) : gpuIdx * n + n ≤ len := by
  rw [hlen, ← Nat.succ_mul]
  exact Nat.mul_le_mul_right n hg

theorem GpusInv.permutes {numRanks n : Nat} {phy2log : List Int} {phyReplicasIdx : List Nat}
    {post : List Int × List Nat} (hlen : phy2log.length = numRanks * n)
    (hridx : phyReplicasIdx.length = phy2log.length) (hpos : numRanks ≠ 0)
    (h : GpusInv n phy2log.length (pairs phy2log phyReplicasIdx) (List.range numRanks) post) :
    PermutesSlots numRanks phy2log phyReplicasIdx post := by
  have hn : phy2log.length / numRanks = n := by
    rw [hlen, Nat.mul_div_cancel_left _ (Nat.pos_of_ne_zero hpos)]
  have hzip := zip_eq_map_pairs (h.snd.trans h.fst.symm)
  have hzip' := zip_eq_map_pairs hridx
  rw [h.fst] at hzip
  have hgpu : ∀ gpuIdx < numRanks, ∀ f : Nat → Int × Nat,
      gpuSlots n gpuIdx ((List.range phy2log.length).map f) =
        (List.range n).map fun j => f (gpuIdx * n + j) := by
    intro gpuIdx hg f
    have hle := slots_le hlen hg
    rw [gpuSlots_eq default (by simpa using hle)]
    refine List.map_congr_left fun j hj => ?_
    have hj := List.mem_range.1 hj
    simp [show gpuIdx * n + j < phy2log.length by omega]
  refine ⟨h.fst, h.snd, fun gpuIdx hg => ?_, ?_⟩
  · rw [hn, hzip, hzip', hgpu gpuIdx hg, hgpu gpuIdx hg]
    exact h.moved gpuIdx (List.mem_range.2 hg)
  · have hsplit : ∀ f : Nat → Int × Nat, (List.range phy2log.length).map f =
        (List.range numRanks).flatMap fun g => (List.range n).map fun j => f (g * n + j) := by
      intro f
      rw [hlen, ← map_places_const, places, List.map_flatMap, List.map_flatMap]
      simp only [List.map_map]
      rfl
    rw [hzip, hzip', hsplit, hsplit]
    exact List.Perm.flatMap_left _ fun g hg => h.moved g hg

section Preserve

variable {phy2log oldPhy2log : List Int} {phyReplicasIdx : List Nat} {numRanks : Nat}
  {post : List Int × List Nat}

theorem preserveIntragpuSlots_permutes (hridx : phyReplicasIdx.length = phy2log.length)
    (h : preserveIntragpuSlots np phy2log phyReplicasIdx numRanks oldPhy2log = .ok post) :
    PermutesSlots numRanks phy2log phyReplicasIdx post := by
  simp only [preserveIntragpuSlots] at h
  split at h
  · cases h
    exact ⟨rfl, hridx, fun _ _ => .refl _, .refl _⟩
  · rename_i hcase
    push Not at hcase
    obtain ⟨hpos, hmod⟩ := hcase
    have hlen := (Nat.mul_div_cancel' (Nat.dvd_of_mod_eq_zero hmod)).symm
    refine GpusInv.permutes hlen hridx hpos ?_
    refine Result.foldlM_inv_of_ok (I := GpusInv (phy2log.length / numRanks) phy2log.length
      (pairs phy2log phyReplicasIdx)) ?_ ⟨rfl, hridx, nofun, fun _ _ => rfl⟩ h
    intro done g todo post post' hl hinv hpost
    have hg : g < numRanks := List.mem_range.1 (hl ▸ by simp)
    obtain ⟨post'', hok, hdone⟩ := @reorderGpu_ok np _ _ _ _ _ _ hridx (slots_le hlen hg)
      (le_of_reorderGpu_ok hpost) hinv.fst hinv.snd
    obtain rfl := Except.ok.inj (hpost.symm.trans hok)
    exact hinv.step hdone (Result.notMem_done hl List.nodup_range)

theorem preserveIntragpuSlots_ok (hridx : phyReplicasIdx.length = phy2log.length)
    (hold : phy2log.length ≤ oldPhy2log.length) :
    ∃ post, preserveIntragpuSlots np phy2log phyReplicasIdx numRanks oldPhy2log = .ok post := by
  simp only [preserveIntragpuSlots]
  split
  · exact ⟨_, rfl⟩
  · rename_i hcase
    push Not at hcase
    obtain ⟨hpos, hmod⟩ := hcase
    have hlen := (Nat.mul_div_cancel' (Nat.dvd_of_mod_eq_zero hmod)).symm
    obtain ⟨post, hok, -⟩ := Result.foldlM_inv
      (f := reorderGpu np phy2log phyReplicasIdx (phy2log.length / numRanks) oldPhy2log)
      (l := List.range numRanks)
      (I := fun _ post => post.1.length = phy2log.length ∧ post.2.length = phy2log.length)
      (b := (phy2log, phyReplicasIdx))
      (by
        rintro done g todo post hl ⟨h₁, h₂⟩
        have hg : g < numRanks := List.mem_range.1 (hl ▸ by simp)
        have hslots := slots_le hlen hg
        have hold' : phy2log.length / numRanks ≤
            (gpuSlots (phy2log.length / numRanks) g oldPhy2log).length := by
          rw [gpuSlots_eq default (hslots.trans hold), List.length_map, List.length_range]
        obtain ⟨post', hok, hdone⟩ := @reorderGpu_ok np _ _ _ _ _ _ hridx hslots hold' h₁ h₂
        exact ⟨post', hok, hdone.fst, hdone.snd⟩)
      ⟨rfl, hridx⟩
    exact ⟨post, hok⟩

end Preserve

end Vllm.Eplb
