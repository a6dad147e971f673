import Vllm.LocalAttentionLaws

namespace Vllm.Attention

open Numpy Segments Chunks

theorem range'_eq_map (start k : Nat) : List.range' start k = (List.range k).map (start + ·) := by
  rw [List.range_eq_range', List.map_add_range']
  rfl

namespace CommonAttentionMetadata

variable {m : CommonAttentionMetadata} {α : Type} {l : List α} {n k : α → Nat} {v : Nat} {t : Int}

theorem getElem?_queryStartLoc (h : m.queryStartLoc = 0 :: Numpy.cumsum 0 (l.map fun a => (n a : Int)))
    (hv : v ≤ l.length) : m.queryStartLoc[v]? = some ((((l.map n).take v).sum : Nat) : Int) := by
  have hcast := cumsum_natCast 0 (l.map n)
  rw [List.map_map] at hcast
  have hall : m.queryStartLoc = (0 :: Segments.cumsum 0 (l.map n)).map fun x : Nat => (x : Int) :=
    h.trans (congrArg ((0 : Int) :: ·) hcast)
  rw [hall, List.getElem?_map, getElem?_cons_cumsum (by rwa [List.length_map]), Nat.zero_add]
  rfl

theorem sum_take_succ {a : α} (ha : l[v]? = some a) :
    ((l.map n).take (v + 1)).sum = ((l.map n).take v).sum + n a := by
  rw [List.take_add_one, List.getElem?_map, ha, List.sum_append]
  simp

theorem HasQuery.exists_place (h : m.queryStartLoc = 0 :: Numpy.cumsum 0 (l.map fun a => (n a : Int)))
    (ht : m.HasQuery v t) :
    ∃ a i, l[v]? = some a ∧ i < n a ∧ t = ((((l.map n).take v).sum + i : Nat) : Int) := by
  obtain ⟨start, stop, hstart, hstop, hle, hlt⟩ := ht
  have hlen : m.queryStartLoc.length = l.length + 1 := by
    have hcast := cumsum_natCast 0 (l.map n)
    rw [List.map_map] at hcast
    have hall : m.queryStartLoc = (0 :: Segments.cumsum 0 (l.map n)).map fun x : Nat => (x : Int) :=
      h.trans (congrArg ((0 : Int) :: ·) hcast)
    rw [hall, List.length_map, List.length_cons, cumsum_map, List.length_map, length_offsets]
  have hv : v < l.length := by
    have hlt := (List.getElem?_eq_some_iff.1 hstop).1
    omega
  have ha := List.getElem?_eq_getElem hv
  rw [getElem?_queryStartLoc h (Nat.le_of_lt hv), Option.some_inj] at hstart
  rw [getElem?_queryStartLoc h hv, Option.some_inj, sum_take_succ ha] at hstop
  refine ⟨l[v], (t - start).toNat, ha, ?_, ?_⟩
  · omega
  · omega

theorem position_eq (h : m.queryStartLoc = 0 :: Numpy.cumsum 0 (l.map fun a => (n a : Int)))
    (hk : m.seqLens = l.map fun a => (k a : Int)) {a : α} {i : Nat} (ha : l[v]? = some a) :
    m.position v ((((l.map n).take v).sum + i : Nat) : Int) = k a + i - n a := by
  have hv := (List.getElem?_eq_some_iff.1 ha).1
  have hstop := getElem?_queryStartLoc h hv
  have hseq : m.seqLens[v]? = some (k a : Int) := by
    rw [hk, List.getElem?_map, ha]
    rfl
  rw [position, List.getD_eq_getElem?_getD, List.getD_eq_getElem?_getD, hstop, hseq,
    sum_take_succ ha, Option.getD_some, Option.getD_some]
  omega

theorem flatten_ranges (start : Nat) (l : List α) (n : α → Nat) :
    (List.zipWith (fun start stop : Int => (List.range (stop - start).toNat).map
        fun i : Nat => start + i) ((start : Int) :: Numpy.cumsum start (l.map fun a => (n a : Int)))
      (Numpy.cumsum start (l.map fun a => (n a : Int)))).flatten =
        (List.range' start (l.map n).sum).map fun x : Nat => (x : Int) := by
  induction l generalizing start with
  | nil => rfl
  | cons a l ih =>
    have hrange : (List.range ((start : Int) + n a - start).toNat).map (fun i : Nat => (start : Int) + i) =
        (List.range' start (n a)).map fun x : Nat => (x : Int) := by
      have hcount : ((start : Int) + n a - start).toNat = n a := by omega
      rw [hcount, range'_eq_map, List.map_map]
      rfl
    have hstep := ih (start + n a)
    rw [Int.natCast_add] at hstep
    rw [List.map_cons, List.map_cons, List.sum_cons, Numpy.cumsum, List.zipWith_cons_cons,
      List.flatten_cons, hstep, hrange, ← List.map_append, List.range'_append_1]

theorem queries_eq (h : m.queryStartLoc = 0 :: Numpy.cumsum 0 (l.map fun a => (n a : Int))) :
    m.queries = (List.range (l.map n).sum).map fun x : Nat => (x : Int) := by
  rw [queries, h, List.range_eq_range']
  exact flatten_ranges 0 l n

theorem mem_queries {m : CommonAttentionMetadata} {t : Int} :
    t ∈ m.queries ↔ ∃ v, m.HasQuery v t := by
  rw [queries, List.mem_flatten]
  constructor
  · rintro ⟨range, hrange, ht⟩
    obtain ⟨v, hv⟩ := List.mem_iff_getElem?.1 hrange
    rw [List.getElem?_zipWith, List.getElem?_drop, Nat.add_comm 1 v] at hv
    cases hstart : m.queryStartLoc[v]? with
    | none =>
      rw [hstart] at hv
      cases hv
    | some start =>
      cases hstop : m.queryStartLoc[v + 1]? with
      | none =>
        rw [hstart, hstop] at hv
        cases hv
      | some stop =>
        rw [hstart, hstop] at hv
        cases hv
        obtain ⟨i, hi, rfl⟩ := List.mem_map.1 ht
        have hi := List.mem_range.1 hi
        exact ⟨v, start, stop, hstart, hstop, by omega, by omega⟩
  · rintro ⟨v, start, stop, hstart, hstop, hle, hlt⟩
    refine ⟨(List.range (stop - start).toNat).map fun i : Nat => start + i, ?_, ?_⟩
    · refine List.mem_of_getElem? (i := v) ?_
      rw [List.getElem?_zipWith, List.getElem?_drop, Nat.add_comm 1 v, hstart, hstop]
    · exact List.mem_map.2 ⟨(t - start).toNat, List.mem_range.2 (by omega), by omega⟩

end CommonAttentionMetadata

theorem cumsum_differences (x : Int) (xs : List Int) :
    Numpy.cumsum x (List.zipWith (· - ·) xs (x :: xs).dropLast) = xs := by
  induction xs generalizing x with
  | nil => rfl
  | cons y xs ih =>
    have hstep : x + (y - x) = y := by omega
    rw [List.dropLast_cons_of_ne_nil (List.cons_ne_nil y xs), List.zipWith_cons_cons, Numpy.cumsum, hstep]
    exact congrArg (y :: ·) (ih y)

theorem Batch.queryStartLoc_eq (m : Batch) : m.queryStartLoc = 0 :: Numpy.cumsum 0 m.qSeqlens := by
  have hhead := m.head_queryStartLoc
  rw [CommonAttentionMetadata.qSeqlens]
  cases hloc : m.queryStartLoc with
  | nil =>
    rw [hloc] at hhead
    cases hhead
  | cons x xs =>
    rw [hloc] at hhead
    cases hhead
    exact congrArg ((0 : Int) :: ·) (cumsum_differences 0 xs).symm

section Tokens

variable {c : Nat} {reqs : List LocalRequest}

theorem labels_query (hc : 0 < c) (hvalid : ∀ r ∈ reqs, r.Valid) :
    labels LocalRequest.query reqs = (virtuals c reqs).flatMap fun p =>
      (List.range (p.1.queryLen c p.2)).map fun i => (p.1, p.1.queryStart c p.2 + i - p.1.start) := by
  rw [virtuals, labels, labels, List.flatMap_assoc]
  refine List.flatMap_congr fun r hr => ?_
  obtain ⟨hpos, hle⟩ := hvalid r hr
  have hstart : r.start < r.seq := by
    rw [LocalRequest.start]
    omega
  have hquery : r.seq - r.start = r.query := by
    rw [LocalRequest.start]
    omega
  have hpieces := congrArg (List.map fun x => (r, x - r.start)) (flatMap_pieces hc hstart)
  rw [hquery, range'_eq_map, List.map_map, List.map_flatMap] at hpieces
  have hplaces : (List.range r.query).map ((fun x => (r, x - r.start)) ∘ (r.start + ·)) =
      (List.range r.query).map (r, ·) := by
    refine List.map_congr_left fun x _ => ?_
    show (r, r.start + x - r.start) = (r, x)
    rw [Nat.add_sub_cancel_left]
  rw [hplaces] at hpieces
  refine hpieces.symm.trans ?_
  rw [List.flatMap_map]
  refine List.flatMap_congr fun j _ => ?_
  rw [range'_eq_map, List.map_map]
  rfl

theorem sum_queryLen (hc : 0 < c) (hvalid : ∀ r ∈ reqs, r.Valid) :
    ((virtuals c reqs).map fun p => p.1.queryLen c p.2).sum = (reqs.map LocalRequest.query).sum := by
  have hlen := congrArg List.length (labels_query hc hvalid)
  rw [length_labels, List.length_flatMap] at hlen
  rw [hlen]
  refine congrArg List.sum (List.map_congr_left fun p _ => ?_)
  rw [List.length_map, List.length_range]

end Tokens

section Mask

variable {c blockSize : Nat} {m : Batch} {reqs : List LocalRequest}

theorem slot_virtual {m' : CommonAttentionMetadata} {p : LocalRequest × Nat} {v k : Nat}
    (hblock : 0 < blockSize) (hdvd : blockSize ∣ c)
    (hrow : m'.blockTable.rows[v]? = some ((List.range (c / blockSize)).map fun i =>
      m.blockTable.entry p.1.index (pageIndex c blockSize m.blockTable.width p i)))
    (hindex : p.1.index < m.blockTable.rows.length) (hk : k < c)
    (hwide : p.1.keyStart c p.2 + k < m.blockTable.width * blockSize) :
    m'.slot blockSize v k = m.slot blockSize p.1.index (p.1.keyStart c p.2 + k) := by
  have hstart : blockSize ∣ p.1.keyStart c p.2 := hdvd.mul_left _
  obtain ⟨d, hd⟩ := hstart
  have hpage : k / blockSize < c / blockSize := by
    obtain ⟨e, rfl⟩ := hdvd
    rw [Nat.mul_div_cancel_left _ hblock, Nat.div_lt_iff_lt_mul hblock, Nat.mul_comm]
    exact hk
  have hblockIndex : (p.1.keyStart c p.2 + k) / blockSize < m.blockTable.width :=
    (Nat.div_lt_iff_lt_mul hblock).2 hwide
  have hsum : p.1.keyStart c p.2 / blockSize + k / blockSize =
      (p.1.keyStart c p.2 + k) / blockSize := by
    rw [hd, Nat.mul_div_cancel_left _ hblock, Nat.mul_add_div hblock]
  have hmod : k % blockSize = (p.1.keyStart c p.2 + k) % blockSize := by
    rw [hd, Nat.mul_add_mod]
  have hpageIndex : pageIndex c blockSize m.blockTable.width p (k / blockSize) =
      (p.1.keyStart c p.2 + k) / blockSize := by
    rw [pageIndex, hsum]
    omega
  have hentry : (m.blockTable.rows[p.1.index]? >>= fun row =>
      row[(p.1.keyStart c p.2 + k) / blockSize]?) =
        some (m.blockTable.entry p.1.index ((p.1.keyStart c p.2 + k) / blockSize)) := by
    have hlen := m.blockTable.length_of_mem _ (List.getElem_mem hindex)
    rw [List.getElem?_eq_getElem hindex, BlockTable.entry, List.getD_eq_getElem _ _ hindex]
    show (m.blockTable.rows[p.1.index])[(p.1.keyStart c p.2 + k) / blockSize]? = _
    rw [List.getD_eq_getElem _ _ (by omega), List.getElem?_eq_getElem (by omega)]
  rw [CommonAttentionMetadata.slot, CommonAttentionMetadata.slot, hrow, hentry, hmod]
  show (((List.range (c / blockSize)).map _)[k / blockSize]?, _) = _
  rw [List.getElem?_map, List.getElem?_range hpage, Option.map_some, hpageIndex]

theorem exists_piece (hc : 0 < c) (h : m.Requests reqs) {b v i i' : Nat} {r : LocalRequest}
    {p : LocalRequest × Nat} (hr : reqs[b]? = some r) (hi : i < r.query)
    (hp : (virtuals c reqs)[v]? = some p) (hi' : i' < p.1.queryLen c p.2)
    (ht : ((reqs.map LocalRequest.query).take b).sum + i =
      (((virtuals c reqs).map fun p => p.1.queryLen c p.2).take v).sum + i') :
    p.1 = r ∧ p.1.index = b ∧ r.start + i = r.queryStart c p.2 + i' := by
  have hplace : (labels LocalRequest.query reqs)[((reqs.map LocalRequest.query).take b).sum + i]? =
      some (r, i) := by
    rw [labels, getElem?_flatMap_take (fun a _ => by rw [List.length_map, List.length_range]) hr hi,
      List.getElem?_map, List.getElem?_range hi]
    rfl
  rw [labels_query hc h.valid, ht,
    getElem?_flatMap_take (fun a _ => by rw [List.length_map, List.length_range]) hp hi',
    List.getElem?_map, List.getElem?_range hi', Option.map_some, Option.some_inj] at hplace
  obtain ⟨hpr, hplace⟩ := Prod.mk.inj hplace
  have hindex := congrArg (fun l : List Nat => l[b]?) h.index
  simp only [List.getElem?_map, hr] at hindex
  rw [List.getElem?_range (List.getElem?_eq_some_iff.1 hr).1] at hindex
  obtain ⟨hpos, hle⟩ := h.valid r (List.mem_of_getElem? hr)
  have hstart : r.start < r.seq := by
    rw [LocalRequest.start]
    omega
  have hmono : r.start ≤ r.queryStart c p.2 := by
    have hbound : bound c r.start r.seq 0 ≤ r.queryStart c p.2 := bound_mono (Nat.zero_le p.2)
    rwa [bound_zero hstart] at hbound
  subst hpr
  exact ⟨rfl, Option.some.inj hindex, by omega⟩

theorem causalKeys_virtual {m' : CommonAttentionMetadata} (hc : 0 < c) (hblock : 0 < blockSize)
    (hdvd : blockSize ∣ c) (h : m.Requests reqs)
    (hwide : ∀ r ∈ reqs, r.seq ≤ m.blockTable.width * blockSize)
    (hloc' : m.queryStartLoc = 0 :: Numpy.cumsum 0 (reqs.map fun r => (r.query : Int)))
    (hloc : m'.queryStartLoc =
      0 :: Numpy.cumsum 0 ((virtuals c reqs).map fun p => (p.1.queryLen c p.2 : Int)))
    (hlens : m'.seqLens = (virtuals c reqs).map fun p => (p.1.keyLen c p.2 : Int))
    (hrows : m'.blockTable.rows = (virtuals c reqs).map fun p => (List.range (c / blockSize)).map
      fun i => m.blockTable.entry p.1.index (pageIndex c blockSize m.blockTable.width p i))
    {b v : Nat} {t : Int} (hb : m.HasQuery b t) (hv : m'.HasQuery v t) :
    m'.causalKeys blockSize v t =
      ((List.range (m.position b t + 1)).filter fun k => k / c = m.position b t / c).map
        (m.slot blockSize b) := by
  obtain ⟨r, i, hr, hi, rfl⟩ := hb.exists_place hloc'
  obtain ⟨p, i', hp, hi', ht⟩ := hv.exists_place hloc
  have ht := Int.ofNat.inj ht
  rw [m.position_eq hloc' h.seqLens hr, ht, CommonAttentionMetadata.causalKeys,
    m'.position_eq hloc hlens hp]
  obtain ⟨rfl, rfl, hplace⟩ := exists_piece hc h hr hi hp hi' ht
  obtain ⟨hmem, hj⟩ := mem_virtuals.1 (List.mem_of_getElem? hp)
  obtain ⟨hquery, hqs⟩ := h.valid p.1 hmem
  have hstart : p.1.start < p.1.seq := by
    rw [LocalRequest.start]
    omega
  generalize hpos : p.1.queryStart c p.2 + i' = pos at hplace
  -- the query is in piece `p.2`, so between where the keys begin and the next chunk
  have hpiece : p.1.queryStart c p.2 ≤ pos ∧ pos < p.1.queryStart c (p.2 + 1) := by
    rw [LocalRequest.queryLen] at hi'
    omega
  have hchunk : pos / c = p.1.start / c + p.2 := div_of_mem_piece hc hpiece.1 hpiece.2
  obtain ⟨hlow, hhigh⟩ := (div_eq_iff_base hc).1 hchunk
  rw [base_succ] at hhigh
  have hbefore : p.1.keyStart c p.2 ≤ p.1.queryStart c p.2 :=
    Nat.le_min.2 ⟨Nat.le_of_lt (base_lt hstart hj), Nat.le_max_right _ _⟩
  have hend : pos < p.1.seq := by
    rw [LocalRequest.start] at hplace
    omega
  have hposition : p.1.seq + i - p.1.query = pos := by
    rw [LocalRequest.start] at hplace
    omega
  have hposition' : p.1.keyLen c p.2 + i' - p.1.queryLen c p.2 = pos - p.1.keyStart c p.2 := by
    rw [LocalRequest.keyLen, LocalRequest.queryLen]
    omega
  have hlow' : p.1.keyStart c p.2 ≤ pos := hlow
  have hhigh' : pos < p.1.keyStart c p.2 + c := hhigh
  have hcount : pos - p.1.keyStart c p.2 + 1 = pos + 1 - p.1.keyStart c p.2 := by omega
  rw [hposition, hposition', filter_range_div hc hchunk, hcount, range'_eq_map, List.map_map]
  refine List.map_congr_left fun k hk => ?_
  have hk := List.mem_range.1 hk
  have hrow := congrArg (fun l : List (List Int) => l[v]?) hrows
  simp only [List.getElem?_map, hp] at hrow
  have hseq := hwide p.1 hmem
  have hindex : p.1.index < m.blockTable.rows.length := by
    have hrows := m.length_rows
    rw [h.seqLens, List.length_map] at hrows
    have hlt := (List.getElem?_eq_some_iff.1 hr).1
    omega
  exact slot_virtual hblock hdvd hrow hindex (by omega) (by omega)

/-- Cut into virtual requests, the queries are the same, and under causal attention each sees the keys
up to its own in its own chunk. -/
theorem virtualBatches_local {c : Nat} (m : Batch) {blockSize : Nat} (hc : 0 < c)
    (hblock : 0 < blockSize) (hdvd : blockSize ∣ c) (hpos : ∀ q ∈ m.qSeqlens, 0 < q)
    (hle : ∀ x ∈ m.qSeqlens.zip m.seqLens, x.1 ≤ x.2)
    (hwide : ∀ s ∈ m.seqLens, s ≤ ((m.blockTable.width * blockSize : Nat) : Int)) :
    ∃ m' update, makeLocalAttentionVirtualBatches c m blockSize = .ok (m', update) ∧
      m'.queries = m.queries ∧
      ∀ b t, m.HasQuery b t → (∃ v, m'.HasQuery v t) ∧ ∀ v, m'.HasQuery v t →
        m'.causalKeys blockSize v t =
          ((List.range (m.position b t + 1)).filter fun k => k / c = m.position b t / c).map
            (m.slot blockSize b) := by
  obtain ⟨reqs, h⟩ := m.exists_requests hpos hle
  have hwide' : ∀ r ∈ reqs, r.seq ≤ m.blockTable.width * blockSize := by
    intro r hr
    have hs := hwide r.seq (h.seqLens ▸ List.mem_map_of_mem hr)
    omega
  have hwidth : 0 < m.blockTable.width := by
    have hreqs : reqs ≠ [] := by
      rintro rfl
      exact m.seqLens_ne_nil h.seqLens
    obtain ⟨r, hr⟩ := List.exists_mem_of_ne_nil reqs hreqs
    have hr' := hwide' r hr
    have hvalid := h.valid r hr
    refine Nat.pos_of_ne_zero fun hzero => ?_
    rw [hzero, Nat.zero_mul] at hr'
    exact absurd (Nat.lt_of_lt_of_le hvalid.query_pos (Nat.le_trans hvalid.query_le hr')) (Nat.lt_irrefl 0)
  obtain ⟨m', update, hok, hloc, hlens, hrows⟩ :=
    makeLocalAttentionVirtualBatches_ok hc hblock hdvd h hwidth
  have hloc' : m.queryStartLoc = 0 :: Numpy.cumsum 0 (reqs.map fun r => (r.query : Int)) :=
    m.queryStartLoc_eq.trans (congrArg (fun xs => 0 :: Numpy.cumsum 0 xs) h.qSeqlens)
  have hqueries : m'.queries = m.queries := by
    rw [CommonAttentionMetadata.queries_eq hloc, CommonAttentionMetadata.queries_eq hloc',
      sum_queryLen hc h.valid]
  refine ⟨m', update, hok, hqueries, fun b t hb => ⟨?_, fun v hv =>
    causalKeys_virtual hc hblock hdvd h hwide' hloc' hloc hlens hrows hb hv⟩⟩
  rw [← CommonAttentionMetadata.mem_queries, hqueries, CommonAttentionMetadata.mem_queries]
  exact ⟨b, hb⟩

def threeRequests : Batch where
  queryStartLoc := [0, 4, 14, 19]
  seqLens := [6, 17, 9]
  numReqs := 3
  numActualTokens := 19
  maxQueryLen := 10
  maxSeqLen := 17
  blockTable := ⟨10, [[0, 1, 2, 3, 4, 5, 6, 7, 8, 9], [10, 11, 12, 13, 14, 15, 16, 17, 18, 19],
    [20, 21, 22, 23, 24, 25, 26, 27, 28, 29]], by decide⟩
  slotMapping := []
  causal := true
  numComputedTokens := [2, 7, 4]
  seqLens_ne_nil := by decide
  length_queryStartLoc := rfl
  head_queryStartLoc := rfl
  length_rows := by decide

theorem virtualBatches_local_threeRequests :
    ∃ m' update, makeLocalAttentionVirtualBatches 4 threeRequests 2 = .ok (m', update) ∧
      m'.queries = threeRequests.queries ∧
      ∀ b t, threeRequests.HasQuery b t → (∃ v, m'.HasQuery v t) ∧ ∀ v, m'.HasQuery v t →
        m'.causalKeys 2 v t =
          ((List.range (threeRequests.position b t + 1)).filter fun k =>
            k / 4 = threeRequests.position b t / 4).map (threeRequests.slot 2 b) :=
  virtualBatches_local threeRequests (by decide) (by decide) (by decide) (by decide) (by decide)
    (by decide)

end Mask

end Vllm.Attention
