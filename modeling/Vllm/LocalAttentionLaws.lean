import Vllm.LocalAttention

namespace Vllm.Attention

open Numpy Segments Chunks

section Arithmetic

variable {c q s j : Nat}

theorem remainder_natCast (a : Nat) (hc : 0 < c) : remainder a c = ((a % c : Nat) : Int) := by
  rw [remainder, if_neg (by omega), Int.fmod_eq_emod_of_nonneg _ (Int.natCast_nonneg c),
    Int.natCast_emod]

theorem floorDivide_natCast (a : Nat) (hc : 0 < c) : floorDivide a c = ((a / c : Nat) : Int) := by
  rw [floorDivide, if_neg (by omega), Int.fdiv_eq_ediv_of_nonneg _ (Int.natCast_nonneg c),
    Int.natCast_ediv]

theorem cdiv_natCast (hc : 0 < c) {x : Nat} (hx : 0 < x) :
    Py.cdiv x c = (((x - 1) / c + 1 : Nat) : Int) := by
  have hdiv := Nat.div_add_mod (x - 1) c
  have hlt := Nat.mod_lt (x - 1) hc
  have hunique : -(x : Int) / c = -(((x - 1) / c + 1 : Nat) : Int) ∧
      -(x : Int) % c = ((c - (x - 1) % c - 1 : Nat) : Int) := by
    refine (Int.ediv_emod_unique (Int.natCast_pos.2 hc)).2 ⟨?_, Int.natCast_nonneg _, by omega⟩
    push_cast
    rw [Int.mul_neg, Int.mul_add, Int.mul_one]
    have hdiv' : (c : Int) * ((x - 1 : Nat) / c : Int) + ((x - 1) % c : Nat) = (x - 1 : Nat) := by
      exact_mod_cast hdiv
    omega
  rw [Py.cdiv_eq _ (Int.natCast_nonneg c), hunique.1, Int.neg_neg]

theorem base_one (c s : Nat) : base c s 1 = s / c * c + c := by
  rw [base_succ, base, Nat.add_zero]

theorem qTokensInFirstBlock_eq (hc : 0 < c) (hq : 0 < q) (hqs : q ≤ s) :
    qTokensInFirstBlock c s q =
      ((bound c (s - q) s 1 - bound c (s - q) s 0 : Nat) : Int) := by
  have hstart : (s : Int) - q = ((s - q : Nat) : Int) := by omega
  have hdiv := Nat.div_add_mod' (s - q) c
  have hlt := Nat.mod_lt (s - q) hc
  rw [qTokensInFirstBlock, hstart, remainder_natCast _ hc, bound_zero (by omega), bound_succ hc,
    base_one]
  omega

theorem tokensInLastBlock_eq (hc : 0 < c) (hs : 0 < s) :
    tokensInLastBlock c s = (s : Int) - ((s - 1) / c * c : Nat) := by
  have hcdiv := cdiv_natCast hc hs
  rw [Py.cdiv] at hcdiv
  rw [tokensInLastBlock, remainder, if_neg (by omega), Int.fmod_def]
  have hfdiv : (s : Int).fdiv (-c) = -(((s - 1) / c + 1 : Nat) : Int) := by omega
  rw [hfdiv, Int.neg_mul_neg, Int.natCast_add, Int.mul_add, Int.natCast_mul,
    Int.mul_comm (c : Int) ((s - 1) / c : Nat)]
  push_cast
  omega

theorem localBlocks_eq (hc : 0 < c) (hq : 0 < q) (hqs : q ≤ s) :
    localBlocks c q ((bound c (s - q) s 1 - bound c (s - q) s 0 : Nat) : Int) =
      (count c (s - q) s : Int) := by
  have hlt : s - q < s := by omega
  have hbase : base c (s - q) 1 = ((s - q) / c + 1) * c := rfl
  rw [localBlocks, bound_zero hlt, bound_succ hc]
  rcases Nat.lt_or_ge (base c (s - q) 1) s with h | h
  · have hfirst : s - q < base c (s - q) 1 := lt_base_one hc
    have hrest : (q : Int) - (min s (base c (s - q) 1) - (s - q) : Nat) =
        ((s - base c (s - q) 1 : Nat) : Int) := by omega
    have hdiv : (s - base c (s - q) 1 - 1) / c = (s - 1) / c - ((s - q) / c + 1) := by
      rw [← Nat.sub_mul_div, hbase]
      congr 1
      rw [Nat.mul_comm]
      omega
    have hle : (s - q) / c + 1 ≤ (s - 1) / c := by
      rw [Nat.le_div_iff_mul_le hc, ← hbase]
      omega
    rw [hrest, cdiv_natCast hc (by omega), hdiv, count]
    omega
  · have hrest : (q : Int) - (min s (base c (s - q) 1) - (s - q) : Nat) = 0 := by omega
    have hsame : (s - 1) / c = (s - q) / c := by
      have hzero : base c (s - q) 0 ≤ s - q := base_zero_le
      have hiff : (s - 1) / c = (s - q) / c + 0 ↔ _ := div_eq_iff_base hc
      rw [Nat.add_zero, Nat.zero_add] at hiff
      exact hiff.2 ⟨by omega, by omega⟩
    rw [hrest, count, hsame, Nat.sub_self, Py.cdiv, Int.zero_fdiv]
    rfl

theorem seqlenQ_eq (hc : 0 < c) (hq : 0 < q) (hqs : q ≤ s) (hj : j + 1 < count c (s - q) s) :
    min ((q : Int) - (bound c (s - q) s 1 - bound c (s - q) s 0 : Nat) - c * ((j + 1 : Nat) - 1)) c =
      ((bound c (s - q) s (j + 2) - bound c (s - q) s (j + 1) : Nat) : Int) := by
  have hlt : s - q < s := by omega
  have hone := base_lt hlt (Nat.lt_of_le_of_lt (Nat.succ_le_succ (Nat.zero_le j)) hj)
  have hsucc := base_lt hlt hj
  have hfirst : s - q < base c (s - q) 1 := lt_base_one hc
  have hbase : base c (s - q) (j + 1) = base c (s - q) 1 + c * j := by
    rw [base, base, Nat.mul_comm c j, ← Nat.add_mul]
    congr 1
    omega
  have hmul : (c : Int) * ((j + 1 : Nat) - 1) = ((c * j : Nat) : Int) := by
    rw [Int.natCast_mul]
    congr 1
    omega
  rw [hmul, bound_zero hlt, bound_succ hc, bound_succ hc, bound_succ hc, base_succ c _ (j + 1),
    base_succ c _ 0] at *
  omega

theorem base_last (hq : 0 < q) (h : j + 1 = count c (s - q) s) :
    base c (s - q) j = (s - 1) / c * c := by
  have hle : (s - q) / c ≤ (s - 1) / c := Nat.div_le_div_right (by omega)
  rw [count] at h
  rw [base]
  congr 1
  omega

theorem seqlenK_eq (hc : 0 < c) (hq : 0 < q) (hqs : q ≤ s) (hj : j < count c (s - q) s) :
    (if j + 1 = count c (s - q) s then tokensInLastBlock c s else (c : Int)) =
      ((bound c (s - q) s (j + 1) - base c (s - q) j : Nat) : Int) := by
  have hlt : s - q < s := by omega
  have hbase := base_lt hlt hj
  split
  · rename_i hlast
    rw [hlast, bound_count hc hlt, tokensInLastBlock_eq hc (by omega), ← base_last hq hlast]
    omega
  · have hnext : base c (s - q) (j + 1) < s := base_lt hlt (by omega)
    rw [bound_succ hc, base_succ] at *
    omega

theorem kSeqstart_eq (hc : 0 < c) (hq : 0 < q) (hqs : q ≤ s) (hj : j < count c (s - q) s) :
    (s : Int) - (((count c (s - q) s : Int) - j - 1) * c + tokensInLastBlock c s) =
      (base c (s - q) j : Int) := by
  have hle : (s - q) / c ≤ (s - 1) / c := Nat.div_le_div_right (by omega)
  obtain ⟨d, hd⟩ := Nat.exists_eq_add_of_lt hj
  have hrest : (count c (s - q) s : Int) - j - 1 = (d : Int) := by omega
  have hsum : (s - 1) / c * c = base c (s - q) j + d * c := by
    rw [base, ← Nat.add_mul]
    congr 1
    rw [count] at hd
    omega
  rw [hrest, tokensInLastBlock_eq hc (by omega), hsum]
  push_cast
  omega

end Arithmetic

structure LocalRequest where
  index : Nat
  query : Nat
  seq : Nat

namespace LocalRequest

variable (c : Nat) (r : LocalRequest)

def start : Nat := r.seq - r.query

def blocks : Nat := count c r.start r.seq

def keyStart (j : Nat) : Nat := base c r.start j

def queryStart (j : Nat) : Nat := bound c r.start r.seq j

def queryLen (j : Nat) : Nat := r.queryStart c (j + 1) - r.queryStart c j

def keyLen (j : Nat) : Nat := r.queryStart c (j + 1) - r.keyStart c j

structure Valid : Prop where
  query_pos : 0 < r.query
  query_le : r.query ≤ r.seq

end LocalRequest

structure Batch.Requests (m : Batch) (reqs : List LocalRequest) : Prop where
  valid : ∀ r ∈ reqs, r.Valid
  seqLens : m.seqLens = reqs.map fun r => (r.seq : Int)
  qSeqlens : m.qSeqlens = reqs.map fun r => (r.query : Int)
  index : reqs.map LocalRequest.index = List.range reqs.length

theorem Batch.exists_requests (m : Batch) (hpos : ∀ q ∈ m.qSeqlens, 0 < q)
    (hle : ∀ x ∈ m.qSeqlens.zip m.seqLens, x.1 ≤ x.2) : ∃ reqs, m.Requests reqs := by
  have hlen : m.qSeqlens.length = m.seqLens.length := by
    rw [CommonAttentionMetadata.qSeqlens, List.length_zipWith, List.length_drop,
      List.length_dropLast, m.length_queryStartLoc]
    omega
  have hvalid : ∀ x ∈ m.qSeqlens.zip m.seqLens, 0 < x.1 ∧ x.1 ≤ x.2 :=
    fun x hx => ⟨hpos x.1 (List.of_mem_zip hx).1, hle x hx⟩
  have hmem : ∀ y ∈ (m.qSeqlens.zip m.seqLens).zipIdx, 0 < y.1.1 ∧ y.1.1 ≤ y.1.2 :=
    fun y hy => hvalid y.1 (List.fst_mem_of_mem_zipIdx hy)
  refine ⟨(m.qSeqlens.zip m.seqLens).zipIdx.map fun y => ⟨y.2, y.1.1.toNat, y.1.2.toNat⟩, ?_⟩
  constructor
  case valid =>
    intro r hr
    obtain ⟨y, hy, rfl⟩ := List.mem_map.1 hr
    have hy := hmem y hy
    exact ⟨by show 0 < y.1.1.toNat; omega, by show y.1.1.toNat ≤ y.1.2.toNat; omega⟩
  case seqLens =>
    have hsnd : (m.qSeqlens.zip m.seqLens).zipIdx.map (fun y => y.1.2) = m.seqLens := by
      show List.map (Prod.snd ∘ Prod.fst) _ = _
      rw [← List.map_map, List.zipIdx_map_fst, List.map_snd_zip hlen.ge]
    rw [List.map_map]
    refine hsnd.symm.trans (List.map_congr_left fun y hy => ?_)
    have hy := hmem y hy
    show y.1.2 = (y.1.2.toNat : Int)
    omega
  case qSeqlens =>
    have hfst : (m.qSeqlens.zip m.seqLens).zipIdx.map (fun y => y.1.1) = m.qSeqlens := by
      show List.map (Prod.fst ∘ Prod.fst) _ = _
      rw [← List.map_map, List.zipIdx_map_fst, List.map_fst_zip hlen.le]
    rw [List.map_map]
    refine hfst.symm.trans (List.map_congr_left fun y hy => ?_)
    have hy := hmem y hy
    show y.1.1 = (y.1.1.toNat : Int)
    omega
  case index =>
    rw [List.map_map, List.length_map, List.length_zipIdx]
    exact (List.zipIdx_map_snd ..).trans List.range_eq_range'.symm

section Arrays

variable {c : Nat} {m : Batch} {reqs : List LocalRequest}

def virtuals (c : Nat) (reqs : List LocalRequest) : List (LocalRequest × Nat) :=
  labels (LocalRequest.blocks c) reqs

theorem zipWith_map_map {α β γ δ : Type} (l : List α) (f : β → γ → δ) (g : α → β) (h : α → γ) :
    List.zipWith f (l.map g) (l.map h) = l.map fun a => f (g a) (h a) := by
  rw [List.zipWith_map, List.zipWith_self]

theorem blocks_pos (c : Nat) (r : LocalRequest) : 0 < r.blocks c := Nat.succ_pos _

theorem firsts_eq (hc : 0 < c) (h : m.Requests reqs) :
    List.zipWith (qTokensInFirstBlock c) m.seqLens m.qSeqlens =
      reqs.map fun r => (r.queryLen c 0 : Int) := by
  rw [h.seqLens, h.qSeqlens, zipWith_map_map]
  exact List.map_congr_left fun r hr =>
    qTokensInFirstBlock_eq hc (h.valid r hr).query_pos (h.valid r hr).query_le

theorem localBlocks_map (hc : 0 < c) (h : m.Requests reqs) :
    List.zipWith (localBlocks c) m.qSeqlens (reqs.map fun r => (r.queryLen c 0 : Int)) =
      reqs.map fun r => (r.blocks c : Int) := by
  rw [h.qSeqlens, zipWith_map_map]
  exact List.map_congr_left fun r hr =>
    localBlocks_eq hc (h.valid r hr).query_pos (h.valid r hr).query_le

theorem cuNumBlocks_eq (c : Nat) (reqs : List LocalRequest) :
    cumsum 0 (reqs.map fun r => (r.blocks c : Int)) =
      (offsets (LocalRequest.blocks c) 0 reqs).map fun p => ((p.2 + p.1.blocks c : Nat) : Int) := by
  have hcast := cumsum_natCast 0 (reqs.map (LocalRequest.blocks c))
  rw [List.map_map, cumsum_map, List.map_map] at hcast
  exact hcast

theorem batchedArange_ok (c : Nat) (reqs : List LocalRequest) :
    batchedArange (reqs.map fun r => (r.blocks c : Int))
        (cumsum 0 (reqs.map fun r => (r.blocks c : Int)))
        ((reqs.map (LocalRequest.blocks c)).sum : Nat) =
      .ok ((virtuals c reqs).map fun p => (p.2 : Int)) := by
  have hlocal : reqs.map (fun r => (r.blocks c : Int)) =
      (offsets (LocalRequest.blocks c) 0 reqs).map fun p => (p.1.blocks c : Int) :=
    map_eq_map_offsets _ 0 reqs _
  have hsub : List.zipWith (· - ·) (cumsum 0 (reqs.map fun r => (r.blocks c : Int)))
      (reqs.map fun r => (r.blocks c : Int)) =
        (offsets (LocalRequest.blocks c) 0 reqs).map fun p => (p.2 : Int) := by
    rw [cuNumBlocks_eq, hlocal, zipWith_map_map]
    refine List.map_congr_left fun p _ => ?_
    omega
  rw [batchedArange, hsub, hlocal, repeats_map, Result.ok_bind, arange_sub_offsets]
  rfl

theorem repeats_requests (c : Nat) (reqs : List LocalRequest) {β : Type} (f : LocalRequest → β) :
    repeats (reqs.map f) (reqs.map fun r => (r.blocks c : Int)) =
      .ok ((virtuals c reqs).map fun p => f p.1) := by
  rw [repeats_map, flatMap_replicate]
  rfl

theorem mem_virtuals {p : LocalRequest × Nat} :
    p ∈ virtuals c reqs ↔ p.1 ∈ reqs ∧ p.2 < p.1.blocks c := mem_labels

theorem seqlensQLocal_ok (hc : 0 < c) (h : m.Requests reqs) :
    seqlensQLocal c m.qSeqlens (reqs.map fun r => (r.queryLen c 0 : Int))
        (reqs.map fun r => (r.blocks c : Int)) ((virtuals c reqs).map fun p => (p.2 : Int)) =
      .ok ((virtuals c reqs).map fun p => (p.1.queryLen c p.2 : Int)) := by
  have hzero : reqs.map (fun r => (r.queryLen c 0 : Int)) =
      ((virtuals c reqs).filter fun p => decide ((p.2 : Int) = 0)).map
        fun p => (p.1.queryLen c 0 : Int) := by
    rw [virtuals, filter_labels_zero fun r _ => blocks_pos c r, List.map_map]
    rfl
  unfold seqlensQLocal
  rw [h.qSeqlens, zipWith_map_map, repeats_requests, Result.ok_bind, List.map_map]
  show putMask _ ((virtuals c reqs).map fun p => decide ((p.2 : Int) = 0)) _ >>= _ = _
  rw [hzero, putMask_map, Result.ok_bind, zipWith_map_map, List.map_map]
  show putMask _ ((virtuals c reqs).map fun p => decide (0 < (p.2 : Int)))
    (compress ((virtuals c reqs).map fun p => decide (0 < (p.2 : Int))) _) = _
  rw [compress_map, putMask_map]
  refine congrArg Except.ok (List.map_congr_left fun p hp => ?_)
  obtain ⟨hmem, hlt⟩ := mem_virtuals.1 hp
  obtain ⟨r, j⟩ := p
  have hr := h.valid r hmem
  cases j with
  | zero => rfl
  | succ j =>
    have hpos : (0 : Int) < ((j + 1 : Nat) : Int) := by omega
    have hne : ¬ ((j + 1 : Nat) : Int) = 0 := by omega
    dsimp only
    rw [decide_eq_true hpos, decide_eq_false hne, if_pos rfl, if_neg Bool.false_ne_true]
    exact seqlenQ_eq hc hr.query_pos hr.query_le hlt

theorem seqlensKLocal_ok (hc : 0 < c) (h : m.Requests reqs) :
    seqlensKLocal c ((reqs.map (LocalRequest.blocks c)).sum : Nat)
        (cumsum 0 (reqs.map fun r => (r.blocks c : Int)))
        (reqs.map fun r => tokensInLastBlock c r.seq) =
      .ok ((virtuals c reqs).map fun p => (p.1.keyLen c p.2 : Int)) := by
  have hwrites : ((cumsum 0 (reqs.map fun r => (r.blocks c : Int))).map (· - 1)).zip
      (reqs.map fun r => tokensInLastBlock c r.seq) =
        (offsets (LocalRequest.blocks c) 0 reqs).map fun p =>
          (((p.2 + p.1.blocks c : Nat) : Int) - 1, tokensInLastBlock c p.1.seq) := by
    rw [cuNumBlocks_eq, List.map_map, map_eq_map_offsets (LocalRequest.blocks c) 0 reqs, List.zip,
      zipWith_map_map]
    rfl
  rw [seqlensKLocal, hwrites, Int.toNat_natCast]
  have hput := put_last (c : Int) (fun r : LocalRequest => tokensInLastBlock c r.seq)
    (fun r (_ : r ∈ reqs) => blocks_pos c r) []
  refine hput.trans ?_
  refine congrArg Except.ok (List.map_congr_left fun p hp => ?_)
  obtain ⟨hmem, hlt⟩ := mem_virtuals.1 hp
  exact seqlenK_eq hc (h.valid p.1 hmem).query_pos (h.valid p.1 hmem).query_le hlt

theorem kSeqstartsAbsolute_ok (hc : 0 < c) (h : m.Requests reqs) :
    kSeqstartsAbsolute c m.seqLens (reqs.map fun r => tokensInLastBlock c r.seq)
        (reqs.map fun r => (r.blocks c : Int)) ((virtuals c reqs).map fun p => (p.2 : Int)) =
      .ok ((virtuals c reqs).map fun p => (p.1.keyStart c p.2 : Int)) := by
  unfold kSeqstartsAbsolute
  rw [h.seqLens, repeats_requests, Result.ok_bind, repeats_requests, Result.ok_bind,
    repeats_requests, Result.ok_bind, zipWith_map_map, zipWith_map_map, zipWith_map_map]
  refine congrArg Except.ok (List.map_congr_left fun p hp => ?_)
  obtain ⟨hmem, hlt⟩ := mem_virtuals.1 hp
  exact kSeqstart_eq hc (h.valid p.1 hmem).query_pos (h.valid p.1 hmem).query_le hlt

def pageIndex (c blockSize width : Nat) (p : LocalRequest × Nat) (i : Nat) : Nat :=
  min (p.1.keyStart c p.2 / blockSize + i) (width - 1)

def BlockTable.entry (table : BlockTable) (request block : Nat) : Int :=
  (table.rows.getD request []).getD block 0

theorem arange_natCast (n : Nat) : arange n = (List.range n).map fun i : Nat => (i : Int) := rfl

theorem blockIndices_eq {blockSize width pages : Nat} (hblock : 0 < blockSize) (hwidth : 0 < width)
    (l : List (LocalRequest × Nat)) :
    (((l.map fun p => (p.1.keyStart c p.2 : Int)).map (floorDivide · blockSize)).flatMap fun start =>
        (arange pages).map fun i => min (start + i) ((width : Int) - 1)) =
      l.flatMap fun p => (List.range pages).map fun i => (pageIndex c blockSize width p i : Int) := by
  rw [List.map_map, List.flatMap_map]
  refine List.flatMap_congr fun p _ => ?_
  rw [arange_natCast, List.map_map]
  refine List.map_congr_left fun i _ => ?_
  show min (floorDivide (p.1.keyStart c p.2) blockSize + (i : Int)) _ = _
  rw [floorDivide_natCast _ hblock, pageIndex]
  omega

theorem batchIndices_ok (c pages : Nat) {reqs : List LocalRequest}
    (hindex : reqs.map LocalRequest.index = List.range reqs.length) :
    repeats (arange reqs.length) ((reqs.map fun r => (r.blocks c : Int)).map (· * (pages : Int))) =
      .ok ((virtuals c reqs).flatMap fun p => (List.range pages).map fun _ => (p.1.index : Int)) := by
  have hcounts : (reqs.map fun r => (r.blocks c : Int)).map (· * (pages : Int)) =
      reqs.map fun r => ((r.blocks c * pages : Nat) : Int) := by
    rw [List.map_map]
    exact List.map_congr_left fun r _ => (Int.natCast_mul _ _).symm
  rw [arange_natCast, ← hindex, List.map_map, hcounts]
  refine (repeats_map reqs (fun r => (r.index : Int)) fun r => r.blocks c * pages).trans ?_
  rw [virtuals, labels, List.flatMap_assoc]
  refine congrArg Except.ok (List.flatMap_congr fun r _ => ?_)
  have hconst : (List.range pages).map (fun _ => (r.index : Int)) = List.replicate pages (r.index : Int) := by
    rw [List.map_const', List.length_range]
  rw [List.flatMap_map]
  show _ = (List.range (r.blocks c)).flatMap fun _ => (List.range pages).map fun _ => (r.index : Int)
  rw [hconst]
  induction r.blocks c with
  | zero => rw [Nat.zero_mul]; rfl
  | succ n ih =>
    rw [Nat.succ_mul, List.replicate_add, ih, List.range_succ, List.flatMap_append,
      List.flatMap_singleton]

theorem mapM_eq_map {α β : Type} {l : List α} {f : α → Result β} {g : α → β}
    (h : ∀ a ∈ l, f a = .ok (g a)) : l.mapM f = .ok (l.map g) := by
  induction l with
  | nil => rfl
  | cons a l ih =>
    obtain ⟨ha, hl⟩ := List.forall_mem_cons.1 h
    rw [List.mapM_cons, ha, ih hl]
    rfl

theorem BlockTable.gather_ok {table : BlockTable} {pages : Nat} {l : List (LocalRequest × Nat)}
    {f : LocalRequest × Nat → Nat → Nat} (hindex : ∀ p ∈ l, p.1.index < table.rows.length)
    (hf : ∀ p i, f p i < table.width) :
    table.gather (l.flatMap fun p => (List.range pages).map fun _ => (p.1.index : Int))
        (l.flatMap fun p => (List.range pages).map fun i => (f p i : Int)) =
      .ok (l.flatMap fun p => (List.range pages).map fun i => table.entry p.1.index (f p i)) := by
  have hzip : (l.flatMap fun p => (List.range pages).map fun _ => (p.1.index : Int)).zip
      (l.flatMap fun p => (List.range pages).map fun i => (f p i : Int)) =
        l.flatMap fun p => (List.range pages).map fun i => ((p.1.index : Int), (f p i : Int)) := by
    rw [List.zip, zipWith_flatMap fun p _ => by rw [List.length_map, List.length_map]]
    exact List.flatMap_congr fun p _ => zipWith_map_map ..
  have hread : ∀ p ∈ l, ∀ i, (item table.rows (p.1.index : Int) >>= fun row => item row (f p i : Int)) =
      .ok (table.entry p.1.index (f p i)) := by
    intro p hp i
    have hlt := hindex p hp
    rw [item_natCast [] hlt, Result.ok_bind, item_natCast 0]
    · rfl
    · rw [table.length_of_mem]
      · exact hf p i
      · rw [List.getD_eq_getElem _ _ hlt]
        exact List.getElem_mem hlt
  rw [gather, hzip]
  refine (mapM_eq_map (g := fun x => table.entry x.1.toNat x.2.toNat) fun x hx => ?_).trans ?_
  · obtain ⟨p, hp, hx⟩ := List.mem_flatMap.1 hx
    obtain ⟨i, -, rfl⟩ := List.mem_map.1 hx
    exact hread p hp i
  · rw [List.map_flatMap]
    refine congrArg Except.ok (List.flatMap_congr fun p _ => ?_)
    rw [List.map_map]
    rfl

theorem BlockTable.view_ok {l : List (LocalRequest × Nat)} {pages : Nat}
    {f : LocalRequest × Nat → List Int} (hl : l ≠ []) (hf : ∀ p ∈ l, (f p).length = pages) :
    ∃ table, BlockTable.view (l.flatMap f) (l.length : Nat) = .ok table ∧ table.rows = l.map f := by
  have hlen : (l.flatMap f).length = l.length * pages := by
    rw [List.length_flatMap, List.map_congr_left hf, List.map_const', List.sum_replicate_nat]
  have hwidth : (l.flatMap f).length / l.length = pages := by
    rw [hlen, Nat.mul_div_cancel_left _ (List.length_pos_iff.2 hl)]
  rw [view, dif_pos (by rw [Int.toNat_natCast, hwidth, hlen])]
  refine ⟨_, rfl, ?_⟩
  show Numpy.rows (l.length : Int).toNat _ _ = _
  rw [Int.toNat_natCast, hwidth]
  exact rows_flatMap hf

theorem amax_ok {l : List Int} (hl : l ≠ []) : ∃ x, amax l = .ok x := by
  cases l with
  | nil => exact absurd rfl hl
  | cons x l => exact ⟨_, rfl⟩

theorem item_last {α : Type} {l : List α} {x : α} (h : l.getLast? = some x) :
    item l (-1) = .ok x := by
  have hpos : 0 < l.length := by
    refine List.length_pos_iff.2 fun hnil => ?_
    rw [hnil] at h
    cases h
  have hindex : Py.index l.length (-1) = some (l.length - 1) := by
    rw [Py.index, if_neg (by omega), if_pos (by omega)]
    congr 1
    omega
  rw [item, hindex]
  rw [List.getLast?_eq_getElem?] at h
  exact Result.getItem_eq_ok.2 h

theorem virtualBatches_ok (c : Nat) (hreqs : reqs ≠ []) :
    item (cumsum 0 (reqs.map fun r => (r.blocks c : Int))) (-1) =
      .ok (((virtuals c reqs).length : Nat) : Int) := by
  have hlast : (Segments.cumsum 0 (reqs.map (LocalRequest.blocks c))).getLast? = _ :=
    getLast?_cumsum (mt List.map_eq_nil_iff.1 hreqs)
  have hcast := cumsum_natCast 0 (reqs.map (LocalRequest.blocks c))
  rw [List.map_map] at hcast
  have hcast' : cumsum 0 (reqs.map fun r => (r.blocks c : Int)) = _ := hcast
  refine item_last ?_
  rw [hcast', List.getLast?_map, hlast, virtuals, length_labels, Nat.zero_add]
  rfl

theorem virtuals_ne_nil (c : Nat) (hreqs : reqs ≠ []) : virtuals c reqs ≠ [] := by
  obtain ⟨r, reqs, rfl⟩ := List.exists_cons_of_ne_nil hreqs
  have hmem : (r, 0) ∈ virtuals c (r :: reqs) := mem_virtuals.2 ⟨List.mem_cons_self, blocks_pos c r⟩
  exact List.ne_nil_of_mem hmem

theorem makeLocalAttentionVirtualBatches_ok {blockSize : Nat} (hc : 0 < c) (hblock : 0 < blockSize)
    (hdvd : blockSize ∣ c) (h : m.Requests reqs) (hwidth : 0 < m.blockTable.width) :
    ∃ m' update, makeLocalAttentionVirtualBatches c m blockSize = .ok (m', update) ∧
      m'.queryStartLoc = 0 :: cumsum 0 ((virtuals c reqs).map fun p => (p.1.queryLen c p.2 : Int)) ∧
      m'.seqLens = (virtuals c reqs).map (fun p => (p.1.keyLen c p.2 : Int)) ∧
      m'.blockTable.rows = (virtuals c reqs).map fun p => (List.range (c / blockSize)).map fun i =>
        m.blockTable.entry p.1.index (pageIndex c blockSize m.blockTable.width p i) := by
  have hreqs : reqs ≠ [] := by
    rintro rfl
    exact m.seqLens_ne_nil h.seqLens
  have hne := virtuals_ne_nil c hreqs
  have hlen : reqs.length = m.seqLens.length := by rw [h.seqLens, List.length_map]
  have hindex : ∀ p ∈ virtuals c reqs, p.1.index < m.blockTable.rows.length := by
    intro p hp
    have hmem := List.mem_map_of_mem (f := LocalRequest.index) (mem_virtuals.1 hp).1
    rw [h.index, List.mem_range] at hmem
    have hrows := m.length_rows
    omega
  have hlt : ∀ p i, pageIndex c blockSize m.blockTable.width p i < m.blockTable.width := by
    intro p i
    rw [pageIndex]
    omega
  have hsum : ((virtuals c reqs).length : Int) = ((reqs.map (LocalRequest.blocks c)).sum : Nat) := by
    rw [virtuals, length_labels]
  have hpages : ∀ p ∈ virtuals c reqs, ((List.range (c / blockSize)).map fun i =>
      m.blockTable.entry p.1.index (pageIndex c blockSize m.blockTable.width p i)).length =
        c / blockSize := by
    intro p _
    rw [List.length_map, List.length_range]
  obtain ⟨table, hview, hrows⟩ := BlockTable.view_ok hne hpages
  have hmax : ∀ f : LocalRequest × Nat → Int, ∃ x, amax ((virtuals c reqs).map f) = .ok x :=
    fun f => amax_ok (mt List.map_eq_nil_iff.1 hne)
  obtain ⟨maxSeqLen, hmaxSeq⟩ := hmax fun p => p.1.keyLen c p.2
  obtain ⟨maxQueryLen, hmaxQuery⟩ := hmax fun p => p.1.queryLen c p.2
  have hlasts : m.seqLens.map (tokensInLastBlock c) = reqs.map fun r => tokensInLastBlock c r.seq := by
    rw [h.seqLens, List.map_map]
    rfl
  unfold makeLocalAttentionVirtualBatches
  dsimp only
  rw [firsts_eq hc h, localBlocks_map hc h, virtualBatches_ok c hreqs, Result.ok_bind, hsum,
    batchedArange_ok, Result.ok_bind, seqlensQLocal_ok hc h, Result.ok_bind, hlasts,
    seqlensKLocal_ok hc h, Result.ok_bind, kSeqstartsAbsolute_ok hc h, Result.ok_bind,
    if_neg (Nat.ne_of_gt hblock), Result.ensure, if_pos (Nat.mod_eq_zero_of_dvd hdvd),
    ← hlen, batchIndices_ok c (c / blockSize) h.index, Result.ok_bind, Result.ok_bind,
    blockIndices_eq hblock hwidth, BlockTable.gather_ok hindex hlt, Result.ok_bind, ← hsum, hview,
    Result.ok_bind, hmaxSeq, Result.ok_bind, hmaxQuery, Result.ok_bind]
  exact ⟨_, _, rfl, rfl, rfl, hrows⟩

end Arrays

end Vllm.Attention
