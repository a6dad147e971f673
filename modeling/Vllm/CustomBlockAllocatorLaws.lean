import Vllm.CustomBlockAllocator

namespace Vllm.CustomBlockAllocator

open Ascending

section Search

variable {l : List Nat} {n : Int} {i m : Nat}

theorem findContiguous_cons {last first : Nat} {k : Int} (is : List Int)
    (hlast : Numpy.item l (k + n - 1) = .ok last) (hfirst : Numpy.item l k = .ok first) :
    findContiguous l n (k :: is) =
      if (last : Int) - first = n - 1 then .ok (some k) else findContiguous l n is := by
  rw [findContiguous, hlast, Result.ok_bind, hfirst, Result.ok_bind]
  rfl

theorem findContiguous_of_pos (hn : 0 < n) (is : List Int) (his : ∀ i ∈ is, 0 ≤ i ∧ i + n ≤ l.length) :
    ∃ o, findContiguous l n is = .ok o ∧ ∀ i ∈ o, 0 ≤ i ∧ i + n ≤ l.length := by
  induction is with
  | nil => exact ⟨none, rfl, nofun⟩
  | cons k is ih =>
    obtain ⟨hk, hfits⟩ := his k List.mem_cons_self
    obtain ⟨i, rfl⟩ := Int.eq_ofNat_of_zero_le hk
    obtain ⟨j, hj⟩ := Int.eq_ofNat_of_zero_le (show 0 ≤ (i : Int) + n - 1 by omega)
    have hlast : Numpy.item l (i + n - 1) = .ok (l.getD j 0) := by
      rw [hj]
      exact Numpy.item_natCast 0 (by omega)
    rw [findContiguous_cons is hlast (Numpy.item_natCast 0 (by omega))]
    split
    · exact ⟨_, rfl, fun i hi => Option.some_inj.mp hi ▸ ⟨hk, hfits⟩⟩
    · exact ih fun i hi => his i (List.mem_cons_of_mem _ hi)

theorem item_length : Numpy.item l (l.length : Int) = .error .indexError := by
  rw [Numpy.item, Py.index, if_pos (by omega), if_neg (by omega)]

def Matches (l : List Nat) (d i : Nat) : Prop := d ≤ i ∧ i < l.length ∧ l.getD i 0 = l.getD (i - d) 0 + d

theorem exists_matches_iff (hl : l.Pairwise (· < ·)) (d : Nat) : (∃ i, Matches l d i) ↔ HasRun l d := by
  rw [hasRun_iff hl]
  constructor
  · rintro ⟨i, hd, hi, hval⟩
    exact ⟨i - d, by omega, by rw [Nat.sub_add_cancel hd, hval]⟩
  · rintro ⟨i, hi, hval⟩
    exact ⟨i + d, Nat.le_add_left d i, hi, by rw [Nat.add_sub_cancel, hval]⟩

theorem findContiguous_of_nonpos {d : Nat} (hl : l.Pairwise (· < ·)) (hd : 0 < d) (hn : n = 1 - d) (hlen : d ≤ l.length)
    (hi : i ≤ l.length) :
    (∃ j : Nat, findContiguous l n (Py.range i (l.length - n + 1) 1) = .ok (some (j : Int)) ∧ Matches l d j) ∨
      (findContiguous l n (Py.range i (l.length - n + 1) 1) = .error .indexError ∧
        ∀ j : Nat, i ≤ j → ¬ Matches l d j) := by
  obtain ⟨k, hk⟩ := Nat.exists_eq_add_of_le hi
  rw [Py.range_one_cons (by omega)]
  induction k generalizing i with
  | zero =>
    refine .inr ⟨?_, fun j hj hm => absurd hm.2.1 (by omega)⟩
    have hlast : Numpy.item l ((i : Int) + n - 1) = .ok (l.getD (i - d) 0) := by
      rw [show (i : Int) + n - 1 = (i - d : Nat) by omega]
      exact Numpy.item_natCast 0 (by omega)
    have hfirst : Numpy.item l (i : Int) = .error .indexError := by
      rw [show i = l.length by omega]
      exact item_length
    rw [findContiguous, hlast, Result.ok_bind, hfirst]
    rfl
  | succ k ih =>
    have hfirst : Numpy.item l (i : Int) = .ok (l.getD i 0) := Numpy.item_natCast 0 (by omega)
    have hrest := ih (i := i + 1) (by omega) (by omega)
    rw [Nat.cast_add, Nat.cast_one, ← Py.range_one_cons (by omega)] at hrest
    rcases Nat.lt_or_ge i d with hwrap | hback
    · -- the place before wraps to the end
      have hlast : Numpy.item l ((i : Int) + n - 1) = .ok (l.getD (l.length + i - d) 0) := by
        have hindex : Py.index l.length ((i : Int) + n - 1) = some (l.length + i - d) := by
          rw [Py.index, if_neg (by omega), if_pos (by omega), Option.some_inj]
          omega
        have hplace : l.length + i - d < l.length := by omega
        rw [Numpy.item, hindex]
        exact Result.getItem_eq_ok.mpr (by rw [List.getD_eq_getElem _ _ hplace, List.getElem?_eq_getElem hplace])
      have hle := getD_add_le hl (show i ≤ l.length + i - d by omega) (by omega)
      rw [findContiguous_cons _ hlast hfirst, if_neg (by omega)]
      refine hrest.imp_right fun hmissing => ⟨hmissing.1, fun j hj hm => ?_⟩
      exact hmissing.2 j (by have := hm.1; omega) hm
    · have hlast : Numpy.item l ((i : Int) + n - 1) = .ok (l.getD (i - d) 0) := by
        rw [show (i : Int) + n - 1 = (i - d : Nat) by omega]
        exact Numpy.item_natCast 0 (by omega)
      rw [findContiguous_cons _ hlast hfirst]
      by_cases hm : Matches l d i
      · rw [if_pos (by have := hm.2.2; omega)]
        exact .inl ⟨i, rfl, hm⟩
      · rw [if_neg fun heq => hm ⟨hback, by omega, by omega⟩]
        refine hrest.imp_right fun hmissing => ⟨hmissing.1, fun j hj hmj => ?_⟩
        have hne : j ≠ i := fun heq => hm (heq ▸ hmj)
        exact hmissing.2 j (by omega) hmj

theorem findContiguous_nonpos_cases {d : Nat} (hl : l.Pairwise (· < ·)) (hd : 0 < d) (hn : n = 1 - d) :
    (HasRun l d ∧ ∃ j : Nat, findContiguous l n (Py.range 0 (l.length - n + 1) 1) = .ok (some (j : Int)) ∧
        d ≤ j ∧ j < l.length) ∨
      (¬ HasRun l d ∧ findContiguous l n (Py.range 0 (l.length - n + 1) 1) = .error .indexError) := by
  rw [← exists_matches_iff hl]
  rcases Nat.lt_or_ge l.length d with hshort | hlen
  · refine .inr ⟨fun ⟨i, hm⟩ => by have := hm.1; have := hm.2.1; omega, ?_⟩
    have hindex : Py.index l.length (0 + n - 1) = none := by
      rw [Py.index, if_neg (by omega), if_neg (by omega)]
    rw [Py.range_one_cons (by omega), findContiguous, Numpy.item, hindex]
    rfl
  · rcases findContiguous_of_nonpos hl hd hn hlen (Nat.zero_le _) with ⟨j, hok, hm⟩ | ⟨herror, hnone⟩
    · exact .inl ⟨⟨j, hm⟩, j, hok, hm.1, hm.2.1⟩
    · exact .inr ⟨fun ⟨j, hm⟩ => hnone j (Nat.zero_le j) hm, herror⟩

end Search

section Alloc

variable {s : CustomBlockAllocator} {n : Int}

theorem allocContiguous_of_pos (hn : 0 < n) (s : CustomBlockAllocator) :
    ∃ blocks rest, s.allocContiguous n = (.ok blocks, { s with freeBlocks := rest }) ∧
      (blocks ++ rest).Perm s.freeBlocks ∧ blocks.length = min n.toNat s.freeBlocks.length := by
  obtain ⟨k, rfl⟩ := Int.eq_ofNat_of_zero_le hn.le
  have hperm := List.perm_insertionSort (· ≤ ·) s.freeBlocks
  generalize hsorted : s.freeBlocks.insertionSort (· ≤ ·) = l at hperm
  obtain ⟨o, hok, hfits⟩ := findContiguous_of_pos (l := l) hn (Py.range 0 (l.length - (k : Int) + 1) 1)
    (fun i hi => by have := Py.mem_range_one.mp hi; omega)
  unfold allocContiguous
  rw [hsorted]
  dsimp only
  rw [hok]
  cases o with
  | none =>
    refine ⟨l.take k, l.drop k, ?_, (List.take_append_drop k l).symm ▸ hperm, ?_⟩
    · simp
    · rw [List.length_take, hperm.length_eq, Int.toNat_natCast]
  | some i =>
    obtain ⟨hnonneg, hle⟩ := hfits i rfl
    obtain ⟨i, rfl⟩ := Int.eq_ofNat_of_zero_le hnonneg
    refine ⟨(l.drop i).take k, l.take i ++ l.drop (i + k), ?_, ?_, ?_⟩
    · dsimp only
      rw [← Int.natCast_add, Py.slice_natCast l (by omega), Py.sliceTo_natCast, Py.sliceFrom_natCast, Nat.add_sub_cancel_left]
    · refine List.Perm.trans ?_ hperm
      rw [← List.append_assoc]
      refine (List.perm_append_comm.append_right _).trans ?_
      rw [List.append_assoc, ← List.drop_drop, List.take_append_drop, List.take_append_drop]
    · rw [List.length_take, List.length_drop, ← hperm.length_eq, Int.toNat_natCast]
      omega

theorem allocContiguous_of_nonpos (hn : n ≤ 0) (hs : s.freeBlocks.Nodup) :
    (HasRun s.freeBlocks (1 - n).toNat ∧
        ∃ rest, s.allocContiguous n = (.ok [], { s with freeBlocks := rest }) ∧ (n = 0 → rest.Perm s.freeBlocks)) ∨
      (¬ HasRun s.freeBlocks (1 - n).toNat ∧
        s.allocContiguous n = (.error .indexError, { s with freeBlocks := s.freeBlocks.insertionSort (· ≤ ·) })) := by
  have hperm := List.perm_insertionSort (· ≤ ·) s.freeBlocks
  have hasc := pairwise_insertionSort_lt hs
  rw [HasRun.congr fun b => hperm.mem_iff.symm]
  generalize hsorted : s.freeBlocks.insertionSort (· ≤ ·) = l at hperm hasc
  unfold allocContiguous
  rw [hsorted]
  dsimp only
  rcases findContiguous_nonpos_cases hasc (show 0 < (1 - n).toNat by omega) (show n = 1 - (1 - n).toNat by omega) with
    ⟨hrun, j, hok, hback, hj⟩ | ⟨hrun, herror⟩
  · obtain ⟨k, hk⟩ := Int.eq_ofNat_of_zero_le (show 0 ≤ (j : Int) + n by omega)
    refine .inl ⟨hrun, l.take j ++ l.drop k, ?_, fun hzero => ?_⟩
    · rw [hok]
      dsimp only
      rw [hk, Py.slice_natCast l hj.le, Py.sliceTo_natCast, Py.sliceFrom_natCast, Nat.sub_eq_zero_of_le (by omega),
        List.take_zero]
    · rw [show k = j by omega, List.take_append_drop]
      exact hperm
  · exact .inr ⟨hrun, by rw [herror]⟩

end Alloc

section Owned

variable {F : Type} {c : AllocatorConfig F} {s : CustomBlockAllocator} {seqId : Int}

theorem count_owned (s : CustomBlockAllocator) (b : Nat) :
    s.owned.count b = s.allocated.total fun entry => (entry.map Prod.fst).count b :=
  List.count_flatMap

theorem owned_set (s : CustomBlockAllocator) (seqId : Int) (entry : List (Nat × Tier)) :
    (owned { s with allocated := s.allocated.set seqId entry } ++
        ((s.allocated.get? seqId).getD []).map Prod.fst).Perm (s.owned ++ entry.map Prod.fst) := by
  refine List.perm_iff_count.mpr fun b => ?_
  have htotal := Dict.total_set (fun entry => (entry.map Prod.fst).count b) s.allocated seqId entry
  rw [List.count_append, List.count_append, count_owned, count_owned, ← htotal]
  cases s.allocated.get? seqId <;> rfl

theorem owned_erase (s : CustomBlockAllocator) (seqId : Int) :
    (owned { s with allocated := s.allocated.erase seqId } ++
        ((s.allocated.get? seqId).getD []).map Prod.fst).Perm s.owned := by
  refine List.perm_iff_count.mpr fun b => ?_
  have htotal := Dict.total_erase (fun entry => (entry.map Prod.fst).count b) s.allocated seqId
  rw [List.count_append, count_owned, count_owned, ← htotal]
  cases s.allocated.get? seqId <;> rfl

theorem defragment_conserves (hnodup : s.owned.Nodup) (hbound : ∀ b ∈ s.owned, b < c.numGpuBlocks) :
    Conserves c (s.defragment c).2 := by
  have hfree : (s.defragment c).2.freeBlocks = (List.range c.numGpuBlocks).filter (· ∉ s.owned) :=
    List.filter_congr fun b _ => decide_eq_decide.mpr (not_congr (List.perm_insertionSort (· ≤ ·) s.owned).mem_iff)
  have howned : (s.defragment c).2.owned = s.owned := rfl
  unfold Conserves
  rw [hfree, howned]
  refine (List.perm_ext_iff_of_nodup ?_ List.nodup_range).mpr fun b => ?_
  · refine List.nodup_append.mpr ⟨List.nodup_range.filter _, hnodup, fun b hb b' hb' heq => ?_⟩
    exact of_decide_eq_true (List.mem_filter.mp hb).2 (heq ▸ hb')
  · rw [List.mem_append, List.mem_filter, List.mem_range, decide_eq_true_eq]
    constructor
    · rintro (⟨hb, -⟩ | hb)
      exacts [hb, hbound b hb]
    · intro hb
      by_cases hin : b ∈ s.owned
      exacts [.inr hin, .inl ⟨hb, hin⟩]

theorem Conserves.nodup (h : Conserves c s) : (s.freeBlocks ++ s.owned).Nodup := h.nodup_iff.mpr List.nodup_range

theorem perm_free (s : CustomBlockAllocator) (seqId : Int) :
    ((s.free seqId).freeBlocks ++ (s.free seqId).owned).Perm (s.freeBlocks ++ s.owned) := by
  unfold CustomBlockAllocator.free
  cases hget : s.allocated.get? seqId with
  | none => exact List.Perm.refl _
  | some blocks =>
    have herase := owned_erase s seqId
    rw [hget] at herase
    show (s.freeBlocks ++ blocks.map Prod.fst ++ _).Perm _
    rw [List.append_assoc]
    exact (List.perm_append_comm.trans herase).append_left _

theorem Conserves.free (h : Conserves c s) (seqId : Int) : Conserves c (s.free seqId) := (perm_free s seqId).trans h

theorem Conserves.defragment (h : Conserves c s) : Conserves c (s.defragment c).2 :=
  defragment_conserves h.nodup.of_append_right fun _ hb => List.mem_range.mp (h.subset (List.mem_append_right _ hb))

theorem perm_assign {blocks rest : List Nat} {entry : List (Nat × Tier)} (hperm : (blocks ++ rest).Perm s.freeBlocks)
    (hentry : entry.map Prod.fst = blocks) :
    (rest ++ owned ⟨rest, s.allocated.set seqId entry⟩ ++
      ((s.allocated.get? seqId).getD []).map Prod.fst).Perm (s.freeBlocks ++ s.owned) := by
  have hset := owned_set s seqId entry
  rw [hentry] at hset
  rw [List.append_assoc]
  refine (hset.append_left rest).trans ?_
  refine List.Perm.trans ?_ (hperm.append_right _)
  rw [← List.append_assoc]
  refine List.perm_append_comm.trans ?_
  rw [List.append_assoc]

variable [RatioArith F]

theorem conserves_assign_iff {blocks rest : List Nat} {entry : List (Nat × Tier)} (h : Conserves c s)
    (hperm : (blocks ++ rest).Perm s.freeBlocks) (hentry : entry.map Prod.fst = blocks) :
    let s' : CustomBlockAllocator := ⟨rest, s.allocated.set seqId entry⟩
    Conserves c (if defragDue c rest.length then (s'.defragment c).2 else s') ↔ s.Keeps c seqId rest.length := by
  intro s'
  have hall : (s'.freeBlocks ++ s'.owned ++ ((s.allocated.get? seqId).getD []).map Prod.fst).Perm
      (List.range c.numGpuBlocks) := (perm_assign hperm hentry).trans h
  have hnodup := hall.nodup_iff.mpr List.nodup_range
  unfold Keeps
  split
  · rename_i hdue
    refine iff_of_true (defragment_conserves hnodup.of_append_left.of_append_right fun b hb => ?_) (.inr hdue)
    exact List.mem_range.mp (hall.subset (List.mem_append_left _ (List.mem_append_right _ hb)))
  · rename_i hdue
    rw [or_iff_left hdue]
    constructor
    · intro hconserves
      have hlength := (hall.trans hconserves.symm).length_eq
      rw [List.length_append, List.length_map] at hlength
      exact List.length_eq_zero_iff.mp (by omega)
    · intro hnone
      rw [hnone, List.map_nil, List.append_nil] at hall
      exact hall

end Owned

section Steps

variable {F : Type} [RatioArith F] {c : AllocatorConfig F} {s : CustomBlockAllocator} {seqId numTokens : Int}

omit [RatioArith F] in
theorem blockSz_pos (c : AllocatorConfig F) (numTokens : Int) : 0 < blockSz c numTokens := by
  unfold blockSz tierOf
  split
  · rw [Option.map_some, Option.getD_some]
    cases selectTier numTokens <;> decide
  · exact c.blockSize_pos

omit [RatioArith F] in
theorem numBlocks_eq (c : AllocatorConfig F) (numTokens : Int) :
    numBlocks c numTokens = Py.cdiv numTokens (blockSz c numTokens) := by
  have hpos : (0 : Int) < blockSz c numTokens := Int.natCast_pos.mpr (blockSz_pos c numTokens)
  refine eq_of_forall_ge_iff fun q => ?_
  rw [numBlocks, Int.fdiv_eq_ediv_of_nonneg _ hpos.le, Py.cdiv_le_iff hpos, ← Int.lt_add_one_iff,
    Int.ediv_lt_iff_lt_mul hpos, Int.add_mul, Int.one_mul]
  omega

theorem mapM_withTier (tier : Tier) (blocks : List Nat) :
    blocks.mapM (withTier (some tier)) = .ok (blocks.map fun b => (b, tier)) :=
  Result.mapM_eq_ok fun _ _ => rfl

theorem mapM_withTier_none {blocks : List Nat} (h : blocks ≠ []) :
    blocks.mapM (withTier none) = .error (.nameError "tier") := by
  cases blocks with
  | nil => exact absurd rfl h
  | cons b blocks =>
    rw [List.mapM_cons]
    rfl

theorem allocate_of_ok {blocks rest : List Nat} {entry : List (Nat × Tier)}
    (hfound : s.allocContiguous (numBlocks c numTokens) = (.ok blocks, { s with freeBlocks := rest }))
    (hentry : blocks.mapM (withTier (tierOf c numTokens)) = .ok entry) :
    s.allocate c seqId numTokens = (.ok blocks,
      let s' : CustomBlockAllocator := ⟨rest, s.allocated.set seqId entry⟩
      if defragDue c rest.length then (s'.defragment c).2 else s') := by
  rw [allocate, hfound]
  dsimp only
  rw [hentry]

theorem allocate_of_error {e : PyError} {s' : CustomBlockAllocator}
    (hfound : s.allocContiguous (numBlocks c numTokens) = (.error e, s')) :
    s.allocate c seqId numTokens = (.error e, s') := by
  rw [allocate, hfound]

theorem allocate_of_lost {blocks rest : List Nat} {e : PyError}
    (hfound : s.allocContiguous (numBlocks c numTokens) = (.ok blocks, { s with freeBlocks := rest }))
    (hentry : blocks.mapM (withTier (tierOf c numTokens)) = .error e) :
    s.allocate c seqId numTokens = (.error e, { s with freeBlocks := rest }) := by
  rw [allocate, hfound]
  dsimp only
  rw [hentry]

theorem owns_assign {blocks rest : List Nat} {entry : List (Nat × Tier)} (hentry : entry.map Prod.fst = blocks) :
    Owns (let s' : CustomBlockAllocator := ⟨rest, s.allocated.set seqId entry⟩
      if defragDue c rest.length then (s'.defragment c).2 else s') seqId blocks := by
  have hget : ((s.allocated.set seqId entry).get? seqId).map (List.map Prod.fst) = some blocks := by
    rw [Dict.get?_set, if_pos rfl, Option.map_some, hentry]
  dsimp only
  split <;> exact hget

theorem allocate_iff_of_pos (h : Conserves c s) (hn : 0 < numBlocks c numTokens) :
    Conserves c (s.run c (.allocate seqId numTokens)) ∧ Behaves c s (.allocate seqId numTokens) ↔
      c.enableTiered = true ∧ numBlocks c numTokens ≤ s.freeBlocks.length ∧
        s.Keeps c seqId (s.freeBlocks.length - (numBlocks c numTokens).toNat) := by
  obtain ⟨blocks, rest, hfound, hperm, hlength⟩ := allocContiguous_of_pos hn s
  have hrest := hperm.length_eq
  rw [List.length_append] at hrest
  show Conserves c (s.allocate c seqId numTokens).2 ∧ s.AllocatesOrFails c seqId numTokens _ ↔ _
  cases htier : c.enableTiered with
  | true =>
    have hsome : tierOf c numTokens = some (selectTier numTokens) := if_pos htier
    have hentry : (blocks.map fun b => (b, selectTier numTokens)).map Prod.fst = blocks := by
      rw [List.map_map]
      exact List.map_id _
    rw [allocate_of_ok hfound (hsome ▸ mapM_withTier _ blocks), AllocatesOrFails, ← numBlocks_eq]
    constructor
    · rintro ⟨hconserves, hcount, -⟩
      refine ⟨rfl, by omega, ?_⟩
      rw [show s.freeBlocks.length - (numBlocks c numTokens).toNat = rest.length by omega]
      exact (conserves_assign_iff h hperm hentry).mp hconserves
    · rintro ⟨-, hle, hkeeps⟩
      rw [show s.freeBlocks.length - (numBlocks c numTokens).toNat = rest.length by omega] at hkeeps
      exact ⟨(conserves_assign_iff h hperm hentry).mpr hkeeps, by omega, owns_assign hentry⟩
  | false =>
    refine iff_of_false (fun ⟨_, hbehaves⟩ => ?_) fun ⟨htrue, _⟩ => Bool.false_ne_true htrue
    cases blocks with
    | nil =>
      -- nothing is free
      rw [allocate_of_ok hfound rfl, AllocatesOrFails, ← numBlocks_eq] at hbehaves
      have hzero := hbehaves.1
      rw [List.length_nil] at hzero
      omega
    | cons b blocks =>
      have hnone : tierOf c numTokens = none := if_neg (by rw [htier]; exact Bool.false_ne_true)
      rw [allocate_of_lost hfound (hnone ▸ mapM_withTier_none (List.cons_ne_nil b blocks))] at hbehaves
      have hsame := congrArg (fun s => s.freeBlocks.length) hbehaves
      dsimp only at hsame
      rw [List.length_cons] at hrest
      omega

theorem allocate_iff_of_nonpos (h : Conserves c s) (hn : numBlocks c numTokens ≤ 0) :
    Conserves c (s.run c (.allocate seqId numTokens)) ∧ Behaves c s (.allocate seqId numTokens) ↔
      if HasRun s.freeBlocks (1 - numBlocks c numTokens).toNat then
        numBlocks c numTokens = 0 ∧ s.Keeps c seqId s.freeBlocks.length
      else s.freeBlocks.Pairwise (· ≤ ·) := by
  show Conserves c (s.allocate c seqId numTokens).2 ∧ s.AllocatesOrFails c seqId numTokens _ ↔ _
  rcases allocContiguous_of_nonpos hn h.nodup.of_append_left with ⟨hrun, rest, hfound, hzero⟩ | ⟨hrun, hfound⟩
  · rw [if_pos hrun, allocate_of_ok hfound rfl, AllocatesOrFails, ← numBlocks_eq]
    have hperm : numBlocks c numTokens = 0 → ([] ++ rest).Perm s.freeBlocks := hzero
    constructor
    · rintro ⟨hconserves, hcount, -⟩
      have hcount : numBlocks c numTokens = 0 := hcount.symm
      rw [← (hzero hcount).length_eq]
      exact ⟨hcount, (conserves_assign_iff h (hperm hcount) rfl).mp hconserves⟩
    · rintro ⟨hcount, hkeeps⟩
      rw [← (hzero hcount).length_eq] at hkeeps
      exact ⟨(conserves_assign_iff h (hperm hcount) rfl).mpr hkeeps, hcount.symm, owns_assign rfl⟩
  · rw [if_neg hrun, allocate_of_error hfound, AllocatesOrFails]
    constructor
    · rintro ⟨-, hsame⟩
      have hfree : s.freeBlocks.insertionSort (· ≤ ·) = s.freeBlocks := congrArg CustomBlockAllocator.freeBlocks hsame
      have hsorted := List.pairwise_insertionSort (· ≤ ·) s.freeBlocks
      rwa [hfree] at hsorted
    · intro hsorted
      rw [hsorted.insertionSort_eq]
      exact ⟨h, rfl⟩

theorem run_iff (h : Conserves c s) (call : Call) :
    Conserves c (s.run c call) ∧ Behaves c s call ↔ Meets c s call := by
  cases call with
  | allocate seqId numTokens =>
    unfold Meets
    dsimp only
    split
    · rename_i hn
      exact allocate_iff_of_pos h hn
    · rename_i hn
      exact allocate_iff_of_nonpos h (Int.not_lt.mp hn)
  | free seqId => exact iff_of_true ⟨h.free seqId, trivial⟩ trivial
  | defragment => exact iff_of_true ⟨h.defragment, rfl⟩ trivial

omit [RatioArith F] in
theorem conserves_init (c : AllocatorConfig F) : Conserves c (init c) := by
  show (List.range c.numGpuBlocks ++ []).Perm _
  rw [List.append_nil]

/-- A run goes well exactly if every call of it meets the condition where it is made. -/
theorem sound_iff_meets (c : AllocatorConfig F) (calls : List Call) :
    Sound c calls ↔ Guarded (step c) (Meets c) (init c) calls := by
  have hstep : ∀ s call, Conserves c s →
      ∃ s', step c s call = .ok s' ∧ (Conserves c s' ∧ Behaves c s call ↔ Meets c s call) :=
    fun s call h => ⟨s.run c call, rfl, run_iff h call⟩
  exact throughout_and_guarded_iff hstep (conserves_init c) calls

end Steps

theorem fourUntiered_pos : 0 < 4 := by decide

def fourUntiered : AllocatorConfig ℚ where
  numGpuBlocks := 4
  defragThreshold := 1 / 2
  enableTiered := false
  numGpuBlocks_pos := fourUntiered_pos
  blockSize_pos := by decide

/-- Without tiers, a first allocation raises and its block is lost. -/
theorem not_sound_fourUntiered : ¬ Sound fourUntiered [.allocate 0 16] := by
  rintro ⟨hconserves, -⟩
  have hafter : Conserves fourUntiered ⟨[1, 2, 3], Dict.empty⟩ := (hconserves.2 _ rfl).head
  exact absurd hafter (by decide)

end Vllm.CustomBlockAllocator
