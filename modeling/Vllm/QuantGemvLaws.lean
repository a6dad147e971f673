import Mathlib.Algebra.BigOperators.Ring.Finset
import Mathlib.Tactic.Ring
import Vllm.QuantGemv

namespace Vllm.Gfx936

open Finset Stores WaveSums

theorem rows_of_blocks {m size : Nat} (hsize : 0 < size) :
    ((List.range (ceilDiv m size)).flatMap fun block =>
      ((List.range size).map (block * size + ·)).filter (· < m)) = List.range m := by
  have hall : ∀ grid, ((List.range grid).flatMap fun block => (List.range size).map (block * size + ·)) =
      List.range (grid * size) := by
    intro grid
    induction grid with
    | zero => rw [Nat.zero_mul]; rfl
    | succ grid ih =>
      rw [List.range_succ, List.flatMap_append, ih, Nat.succ_mul, List.range_add]
      simp
  have hle : m ≤ ceilDiv m size * size := by
    have := Nat.div_add_mod (m + size - 1) size
    have := Nat.mod_lt (m + size - 1) hsize
    rw [ceilDiv, Nat.mul_comm]
    omega
  obtain ⟨rest, hrest⟩ := Nat.exists_eq_add_of_le hle
  rw [← List.filter_flatMap, hall, hrest, List.range_add, List.filter_append,
    List.filter_eq_self.mpr (by simp), List.filter_eq_nil_iff.mpr (by simp), List.append_nil]

section Sums

variable {R : Type} [CommRing R]

theorem foldl_add {α : Type} (f : α → R) (l : List α) (a : R) :
    l.foldl (fun sum x => sum + f x) a = a + (l.map f).sum := by
  induction l generalizing a with
  | nil => simp
  | cons x l ih => rw [List.foldl_cons, ih, List.map_cons, List.sum_cons, add_assoc]

theorem accumulate_ok {f : Nat → Result R} {g : Nat → R} {l : List Nat} (h : ∀ k ∈ l, f k = .ok (g k)) :
    l.foldlM (fun sum k => do return sum + (← f k)) (0 : R) = .ok (l.map g).sum := by
  have hstep : ∀ sum, ∀ k ∈ l, (do return sum + (← f k) : Result R) = .ok (sum + g k) := by
    intro sum k hk
    rw [h k hk]
    rfl
  rw [Result.foldlM_eq_ok hstep, foldl_add, zero_add]

theorem flatten_map_ite {α β : Type} (p : α → Prop) [DecidablePred p] (g : α → β) (l : List α) :
    (l.map fun x => if p x then [g x] else []).flatten = (l.filter p).map g := by
  induction l with
  | nil => rfl
  | cons x l ih =>
    rw [List.map_cons, List.flatten_cons, ih, List.filter_cons]
    by_cases hx : p x <;> simp [hx]

def threadSum (K m blockIdx : Nat) (value : Nat → Nat → R) (rowOffset tid : Nat) : R :=
  if blockIdx * rowsPerBlock + rowOffset < m then
    ((strided tid K blockThreads).map (value (blockIdx * rowsPerBlock + rowOffset))).sum
  else 0

def waveSum (accumulators : Nat → Nat → R) (cell : Nat) : R :=
  reduce waveSize (accumulators (cell / wavesPerBlock)) (offsets 6) (waveSize * (cell % wavesPerBlock))

theorem storeWaveSums_ok {accumulators : Nat → Nat → R} {waveSums : List R}
    (hlen : waveSums.length = rowsPerBlock * wavesPerBlock) :
    (List.range blockThreads).foldlM (storeWaveSums accumulators) waveSums =
      .ok ((List.range (rowsPerBlock * wavesPerBlock)).map (waveSum accumulators)) := by
  have hround : ∀ tid ∈ List.range blockThreads, ∀ memory : List R,
      memory.length = rowsPerBlock * wavesPerBlock → ∃ memory',
        storeWaveSums accumulators memory tid = .ok memory' ∧
        Stored (if tid % waveSize = 0 then
            (List.range rowsPerBlock).flatMap fun rowOffset => [rowOffset * wavesPerBlock + tid / waveSize]
          else []) (waveSum accumulators) memory memory' := by
    intro tid htid memory hmemory
    have htid : tid < 256 := List.mem_range.mp htid
    unfold storeWaveSums
    by_cases hlane : tid % waveSize = 0
    · rw [if_pos hlane, if_pos hlane]
      have hwave : tid / waveSize < wavesPerBlock := Nat.div_lt_of_lt_mul htid
      refine foldlM_stored (fun rowOffset hrow memory hmemory => ?_) hmemory
      have hrow : rowOffset < rowsPerBlock := List.mem_range.mp hrow
      have hvalue : waveSum accumulators (rowOffset * wavesPerBlock + tid / waveSize) =
          reduce waveSize (accumulators rowOffset) (offsets 6) tid := by
        have hpos : 0 < wavesPerBlock := by decide
        rw [waveSum, Nat.mul_comm, Nat.mul_add_div hpos, Nat.div_eq_of_lt hwave, Nat.add_zero, Nat.mul_add_mod,
          Nat.mod_eq_of_lt hwave, Nat.mul_div_cancel' (Nat.dvd_of_mod_eq_zero hlane)]
      rw [← hvalue]
      refine store_stored (hmemory ▸ ?_)
      unfold rowsPerBlock wavesPerBlock blockThreads waveSize at *
      omega
    · rw [if_neg hlane, if_neg hlane]
      exact ⟨memory, rfl, .refl memory⟩
  obtain ⟨memory, hok, hstored⟩ := foldlM_stored hround hlen
  rw [hok, hstored.eq_map, hlen]
  intro j hj
  rw [hlen] at hj
  have hj : j < 16 := hj
  -- cell `j` is stored by lane 0 of wave `j % 4`
  refine List.mem_flatMap.mpr ⟨waveSize * (j % wavesPerBlock), List.mem_range.mpr ?_, ?_⟩
  · have : j % wavesPerBlock < 4 := Nat.mod_lt j (by decide)
    show 64 * (j % wavesPerBlock) < 256
    omega
  · rw [if_pos (Nat.mul_mod_right _ _), List.mem_flatMap]
    refine ⟨j / wavesPerBlock, List.mem_range.mpr (Nat.div_lt_of_lt_mul hj), ?_⟩
    rw [Nat.mul_div_cancel_left _ (by decide), Nat.div_add_mod', List.mem_singleton]

theorem total_ok {K m blockIdx : Nat} {value : Nat → Nat → R} {rowOffset : Nat} (hoffset : rowOffset < rowsPerBlock)
    (hrow : blockIdx * rowsPerBlock + rowOffset < m) {accumulators : Nat → Nat → R}
    (hacc : ∀ tid < blockThreads, accumulators rowOffset tid = threadSum K m blockIdx value rowOffset tid) :
    (List.range wavesPerBlock).foldlM (fun total index => do
      return total + (← Result.getItem ((List.range (rowsPerBlock * wavesPerBlock)).map (waveSum accumulators))
        (rowOffset * wavesPerBlock + index))) (0 : R) =
      .ok (∑ k ∈ Finset.range K, value (blockIdx * rowsPerBlock + rowOffset) k) := by
  have hread : ∀ index ∈ List.range wavesPerBlock,
      Result.getItem ((List.range (rowsPerBlock * wavesPerBlock)).map (waveSum accumulators))
        (rowOffset * wavesPerBlock + index) =
      .ok (∑ i ∈ Finset.range waveSize, threadSum K m blockIdx value rowOffset (waveSize * index + i)) := by
    intro index hindex
    have hindex : index < wavesPerBlock := List.mem_range.mp hindex
    have hcell : rowOffset * wavesPerBlock + index < rowsPerBlock * wavesPerBlock := by
      unfold rowsPerBlock wavesPerBlock blockThreads waveSize at *
      omega
    have hpos : 0 < wavesPerBlock := by decide
    rw [Result.getItem_eq_ok, List.getElem?_map, List.getElem?_range hcell, Option.map_some, waveSum,
      Nat.mul_comm rowOffset, Nat.mul_add_div hpos, Nat.div_eq_of_lt hindex, Nat.add_zero, Nat.mul_add_mod,
      Nat.mod_eq_of_lt hindex, reduce_offsets (by decide)]
    refine congrArg some (sum_congr rfl fun i hi => hacc _ ?_)
    have hi : i < 64 := Finset.mem_range.mp hi
    have hindex : index < 4 := hindex
    show 64 * index + i < 256
    omega
  rw [accumulate_ok hread]
  have hthreads : waveSize * wavesPerBlock = blockThreads := rfl
  rw [← List.sum_toFinset _ List.nodup_range, List.toFinset_range, sum_waves waveSize wavesPerBlock, hthreads,
    ← sum_strided (by decide : 0 < blockThreads) K (value (blockIdx * rowsPerBlock + rowOffset))]
  refine congrArg Except.ok (sum_congr rfl fun tid _ => ?_)
  rw [threadSum, if_pos hrow]

theorem sumRows_ok {K m blockIdx : Nat} {product : Nat → Nat → Nat → Result R} {finish : Nat → R → Result R}
    {value : Nat → Nat → R} {done : Nat → R → R} {waveSums : List R}
    (hlen : waveSums.length = rowsPerBlock * wavesPerBlock)
    (hproduct : ∀ rowOffset < rowsPerBlock, blockIdx * rowsPerBlock + rowOffset < m → ∀ k < K,
      product (blockIdx * rowsPerBlock + rowOffset) rowOffset k =
        .ok (value (blockIdx * rowsPerBlock + rowOffset) k))
    (hfinish : ∀ row < m, ∀ total, finish row total = .ok (done row total)) :
    sumRows K m product finish waveSums blockIdx =
      .ok ((((List.range rowsPerBlock).map (blockIdx * rowsPerBlock + ·)).filter (· < m)).map fun row =>
        (row, done row (∑ k ∈ Finset.range K, value row k))) := by
  have hacc : ((List.range rowsPerBlock).mapM fun rowOffset => (List.range blockThreads).mapM fun tid =>
      if blockIdx * rowsPerBlock + rowOffset < m then
        (strided tid K blockThreads).foldlM (fun sum k => do
          return sum + (← product (blockIdx * rowsPerBlock + rowOffset) rowOffset k)) 0
      else .ok 0) = .ok ((List.range rowsPerBlock).map fun rowOffset =>
        (List.range blockThreads).map (threadSum K m blockIdx value rowOffset)) := by
    refine Result.mapM_eq_ok fun rowOffset hoffset => Result.mapM_eq_ok fun tid htid => ?_
    have htid : tid < blockThreads := List.mem_range.mp htid
    unfold threadSum
    split
    · rename_i hrow
      refine accumulate_ok fun k hk => hproduct rowOffset (List.mem_range.mp hoffset) hrow k ?_
      exact ((mem_strided_iff htid).mp hk).1
    · rfl
  obtain ⟨accumulators, haccumulators⟩ : ∃ accumulators : Nat → Nat → R, accumulators = fun rowOffset tid =>
      (((List.range rowsPerBlock).map fun rowOffset => (List.range blockThreads).map
        (threadSum K m blockIdx value rowOffset)).getD rowOffset []).getD tid 0 := ⟨_, rfl⟩
  have hget : ∀ rowOffset < rowsPerBlock, ∀ tid < blockThreads,
      accumulators rowOffset tid = threadSum K m blockIdx value rowOffset tid := by
    intro rowOffset hoffset tid htid
    rw [haccumulators]
    simp [hoffset, htid]
  have hwrite : ∀ tid ∈ List.range blockThreads, writeOutput m blockIdx
      ((List.range (rowsPerBlock * wavesPerBlock)).map (waveSum accumulators)) finish tid =
      .ok (if tid < rowsPerBlock ∧ blockIdx * rowsPerBlock + tid < m then
        [(blockIdx * rowsPerBlock + tid, done (blockIdx * rowsPerBlock + tid)
          (∑ k ∈ Finset.range K, value (blockIdx * rowsPerBlock + tid) k))] else []) := by
    intro tid _
    unfold writeOutput
    by_cases hlow : tid < rowsPerBlock
    · have hwave : tid < waveSize := Nat.lt_trans hlow (by decide)
      have hdiv : tid / waveSize = 0 := Nat.div_eq_of_lt hwave
      have hmod : tid % waveSize = tid := Nat.mod_eq_of_lt hwave
      rw [hmod, if_pos ⟨hdiv, hlow⟩]
      by_cases hrow : blockIdx * rowsPerBlock + tid < m
      · rw [if_pos hrow, if_pos ⟨hlow, hrow⟩, total_ok hlow hrow (hget tid hlow), Result.ok_bind,
          hfinish _ hrow]
        rfl
      · rw [if_neg hrow, if_neg fun h => hrow h.2]
    · have hneg : ¬ (tid / waveSize = 0 ∧ tid % waveSize < rowsPerBlock) := by
        unfold waveSize
        omega
      rw [if_neg hneg, if_neg fun h => hlow h.1]
  have hsplit : List.range blockThreads =
      List.range rowsPerBlock ++ (List.range (blockThreads - rowsPerBlock)).map (rowsPerBlock + ·) := by
    rw [← List.range_add]
    rfl
  unfold sumRows
  rw [hacc, Result.ok_bind, ← haccumulators, storeWaveSums_ok hlen, Result.ok_bind, Result.mapM_eq_ok hwrite,
    Result.ok_bind]
  refine congrArg Except.ok ?_
  have hrows : (List.range blockThreads).filter (fun tid => tid < rowsPerBlock ∧ blockIdx * rowsPerBlock + tid < m) =
      (List.range rowsPerBlock).filter fun tid => blockIdx * rowsPerBlock + tid < m := by
    have hspare : (List.map (rowsPerBlock + ·) (List.range (blockThreads - rowsPerBlock))).filter
        (fun tid => tid < rowsPerBlock ∧ blockIdx * rowsPerBlock + tid < m) = [] := by
      simp
    rw [hsplit, List.filter_append, hspare, List.append_nil]
    refine List.filter_congr fun tid htid => ?_
    simp [List.mem_range.mp htid]
  rw [flatten_map_ite, hrows, List.filter_map, List.map_map]
  rfl

end Sums

section Shared

variable {R : Type} {d : R}

theorem getItem_getD {α : Type} {l : List α} {i : Nat} (h : i < l.length) (d : α) :
    Result.getItem l i = .ok (l.getD i d) := by
  rw [Result.getItem_eq_ok, List.getD_eq_getElem?_getD, List.getElem?_eq_getElem h]
  rfl

theorem cell_lt {m width row i : Nat} (hrow : row < m) (hi : i < width) : row * width + i < m * width := by
  calc row * width + i < row * width + width := by omega
    _ = (row + 1) * width := (Nat.succ_mul row width).symm
    _ ≤ m * width := Nat.mul_le_mul_right width hrow

theorem loadInput_stored {K : Nat} {input smem : List R} {n tid : Nat} {v : Nat → R} (htid : tid < blockThreads)
    (hinput : input.length = K) (hv : ∀ k < K, v k = input.getD k d) (hn : K ≤ n) (hsmem : smem.length = n) :
    ∃ smem', loadInput K input smem tid = .ok smem' ∧
      Stored ((strided tid K blockThreads).flatMap ([·])) v smem smem' := by
  refine foldlM_stored (fun k hk memory hmemory => ?_) hsmem
  have hlt : k < K := ((mem_strided_iff htid).mp hk).1
  rw [getItem_getD (by omega) d, Result.ok_bind, ← hv k hlt]
  exact store_stored (by omega)

theorem loadInput_ok {K : Nat} {input smem : List R} (hinput : input.length = K) (hsmem : smem.length = K) :
    (List.range blockThreads).foldlM (loadInput K input) smem = .ok ((List.range K).map (input.getD · d)) := by
  obtain ⟨smem', hok, hstored⟩ := foldlM_stored (fun tid htid memory hmemory =>
    @loadInput_stored R d K input memory K tid (input.getD · d) (List.mem_range.mp htid) hinput
      (fun _ _ => rfl) le_rfl hmemory) hsmem
  rw [hok, hstored.eq_map, hsmem]
  intro k hk
  rw [hsmem] at hk
  have hmod : k % blockThreads < blockThreads := Nat.mod_lt k (by decide)
  refine List.mem_flatMap.mpr ⟨k % blockThreads, List.mem_range.mpr hmod, List.mem_flatMap.mpr ⟨k, ?_, ?_⟩⟩
  · exact (mem_strided_iff hmod).mpr ⟨hk, rfl⟩
  · exact List.mem_singleton_self k

variable [One R] {K m blockIdx : Nat} {scale input smem : List R}

def scaleCell (d : R) (K m : Nat) (scale : List R) (blockIdx index : Nat) : R :=
  if blockIdx * rowsPerBlock + index / (K / 32) < m then
    scale.getD ((blockIdx * rowsPerBlock + index / (K / 32)) * (K / 32) + index % (K / 32)) d
  else 1

def sharedCell (d : R) (K m : Nat) (scale input : List R) (blockIdx cell : Nat) : R :=
  if cell < K then input.getD cell d else scaleCell d K m scale blockIdx (cell - K)

theorem loadScale_stored {tid : Nat} (htid : tid < blockThreads) (hscale : scale.length = m * (K / 32))
    (hsmem : smem.length = K + rowsPerBlock * (K / 32)) :
    ∃ smem', loadScale K m scale blockIdx smem tid = .ok smem' ∧
      Stored ((strided tid (rowsPerBlock * (K / 32)) blockThreads).flatMap fun index => [K + index])
        (sharedCell d K m scale input blockIdx) smem smem' := by
  refine foldlM_stored (fun index hindex memory hmemory => ?_) hsmem
  have hlt : index < rowsPerBlock * (K / 32) := ((mem_strided_iff htid).mp hindex).1
  have hgroups : 0 < K / 32 := by
    rcases Nat.eq_zero_or_pos (K / 32) with h | h
    · rw [h] at hlt
      omega
    · exact h
  have hcell : sharedCell d K m scale input blockIdx (K + index) = scaleCell d K m scale blockIdx index := by
    rw [sharedCell, if_neg (by omega), Nat.add_sub_cancel_left]
  have hvalue : scaleOfRow m (K / 32) scale (blockIdx * rowsPerBlock + index / (K / 32)) (index % (K / 32)) =
      .ok (scaleCell d K m scale blockIdx index) := by
    unfold scaleOfRow scaleCell
    split
    · rename_i hrow
      rw [getItem_getD (hscale ▸ cell_lt hrow (Nat.mod_lt _ hgroups)) d]
    · rfl
  rw [hvalue, Result.ok_bind, ← hcell]
  exact store_stored (by omega)

theorem loadShared_ok (hinput : input.length = K) (hscale : scale.length = m * (K / 32))
    (hsmem : smem.length = K + rowsPerBlock * (K / 32)) :
    (List.range blockThreads).foldlM (loadShared K m scale input blockIdx) smem =
      .ok ((List.range (K + rowsPerBlock * (K / 32))).map (sharedCell d K m scale input blockIdx)) := by
  have hround : ∀ tid ∈ List.range blockThreads, ∀ memory : List R,
      memory.length = K + rowsPerBlock * (K / 32) → ∃ memory',
        loadShared K m scale input blockIdx memory tid = .ok memory' ∧
        Stored ((strided tid K blockThreads).flatMap ([·]) ++
          (strided tid (rowsPerBlock * (K / 32)) blockThreads).flatMap fun index => [K + index])
          (sharedCell d K m scale input blockIdx) memory memory' := by
    intro tid htid memory hmemory
    have htid := List.mem_range.mp htid
    obtain ⟨next, hnext, hstored⟩ := @loadInput_stored R d K input memory _ tid
      (sharedCell d K m scale input blockIdx) htid hinput (fun k hk => if_pos hk) (Nat.le_add_right _ _) hmemory
    obtain ⟨last, hlast, hstored'⟩ :=
      @loadScale_stored R d _ K m blockIdx scale input next tid htid hscale (hstored.length.trans hmemory)
    refine ⟨last, ?_, hstored.trans hstored'⟩
    rw [loadShared, hnext]
    exact hlast
  obtain ⟨smem', hok, hstored⟩ := foldlM_stored hround hsmem
  rw [hok, hstored.eq_map, hsmem]
  intro j hj
  rw [hsmem] at hj
  have hthreads : 0 < blockThreads := by decide
  rcases Nat.lt_or_ge j K with hjK | hjK
  · have hmod := Nat.mod_lt j hthreads
    refine List.mem_flatMap.mpr ⟨j % blockThreads, List.mem_range.mpr hmod, List.mem_append_left _ ?_⟩
    exact List.mem_flatMap.mpr ⟨j, (mem_strided_iff hmod).mpr ⟨hjK, rfl⟩, List.mem_singleton_self j⟩
  · have hmod := Nat.mod_lt (j - K) hthreads
    refine List.mem_flatMap.mpr ⟨(j - K) % blockThreads, List.mem_range.mpr hmod, List.mem_append_right _ ?_⟩
    refine List.mem_flatMap.mpr ⟨j - K, (mem_strided_iff hmod).mpr ⟨by omega, rfl⟩, ?_⟩
    exact List.mem_singleton.mpr (by omega)

theorem w4Entry_ok {weight : List UInt8} {rowOffset k : Nat} (hK : K % 32 = 0) (hk : k < K)
    (hoffset : rowOffset < rowsPerBlock) (hrow : blockIdx * rowsPerBlock + rowOffset < m)
    (hweight : weight.length = m * (K / 2)) :
    w4Entry K weight ((List.range (K + rowsPerBlock * (K / 32))).map (sharedCell d K m scale input blockIdx))
      (blockIdx * rowsPerBlock + rowOffset) rowOffset k =
      .ok (decodeInt4 (weight.getD ((blockIdx * rowsPerBlock + rowOffset) * (K / 2) + k / 2) 0) (k % 2 = 1),
        scale.getD ((blockIdx * rowsPerBlock + rowOffset) * (K / 32) + k / 32) d) := by
  have hgroup : k / 32 < K / 32 := by omega
  have hcell : rowOffset * (K / 32) + k / 32 < rowsPerBlock * (K / 32) := cell_lt hoffset hgroup
  have hdiv : (rowOffset * (K / 32) + k / 32) / (K / 32) = rowOffset := by
    rw [Nat.mul_comm, Nat.mul_add_div (by omega), Nat.div_eq_of_lt hgroup, Nat.add_zero]
  have hmod : (rowOffset * (K / 32) + k / 32) % (K / 32) = k / 32 := by
    rw [Nat.mul_comm, Nat.mul_add_mod, Nat.mod_eq_of_lt hgroup]
  have hscale : Result.getItem
      ((List.range (K + rowsPerBlock * (K / 32))).map (sharedCell d K m scale input blockIdx))
      (K + (rowOffset * (K / 32) + k / 32)) =
      .ok (scale.getD ((blockIdx * rowsPerBlock + rowOffset) * (K / 32) + k / 32) d) := by
    rw [Result.getItem_eq_ok, List.getElem?_map, List.getElem?_range (by omega), Option.map_some, sharedCell,
      if_neg (by omega), Nat.add_sub_cancel_left, scaleCell, hdiv, hmod, if_pos hrow]
  rw [w4Entry, getItem_getD (hweight ▸ cell_lt hrow (by omega)) 0, Result.ok_bind, hscale]
  rfl

end Shared

section Launch

variable {R : Type} [CommRing R] {m K : Nat} {input : List R}

omit [CommRing R] in
theorem launch_rows {kernel : Nat → Result (List (Nat × R))} {value : Nat → R}
    (h : ∀ blockIdx, kernel blockIdx =
      .ok ((((List.range rowsPerBlock).map (blockIdx * rowsPerBlock + ·)).filter (· < m)).map fun row =>
        (row, value row))) :
    launch (ceilDiv m rowsPerBlock) kernel = .ok ((List.range m).map fun row => (row, value row)) := by
  rw [launch, Result.mapM_eq_ok fun blockIdx _ => h blockIdx, Result.ok_bind]
  refine congrArg Except.ok ?_
  rw [← @rows_of_blocks m rowsPerBlock (by decide), List.map_flatMap]
  rfl

def w8Dequantised (K : Nat) (weight : List Int8) (scale : List R) (row k : Nat) : R :=
  ((weight.getD (row * K + k) 0).toInt : R) * scale.getD row 0

def w4Dequantised (K : Nat) (weight : List UInt8) (scale : List R) (row k : Nat) : R :=
  (decodeInt4 (weight.getD (row * (K / 2) + k / 2) 0) (k % 2 = 1) : R) * scale.getD (row * (K / 32) + k / 32) 0

theorem w8a16GemvKernel_ok {weight : List Int8} {scale smem waveSums : List R}
    (hweight : weight.length = m * K) (hscale : scale.length = m) (hinput : input.length = K)
    (hsmem : smem.length = K) (hwave : waveSums.length = rowsPerBlock * wavesPerBlock) (blockIdx : Nat) :
    w8a16GemvKernel K m weight scale input smem waveSums blockIdx =
      .ok ((((List.range rowsPerBlock).map (blockIdx * rowsPerBlock + ·)).filter (· < m)).map fun row =>
        (row, ∑ k ∈ Finset.range K, w8Dequantised K weight scale row k * input.getD k 0)) := by
  rw [w8a16GemvKernel, loadInput_ok (d := 0) hinput hsmem, Result.ok_bind]
  have hsum := @sumRows_ok R _ K m blockIdx (fun row _ k => do
      return ((← Result.getItem weight (row * K + k)).toInt : R) *
        (← Result.getItem ((List.range K).map (input.getD · 0)) k))
    (fun row total => do return total * (← Result.getItem scale row))
    (fun row k => ((weight.getD (row * K + k) 0).toInt : R) * input.getD k 0)
    (fun row total => total * scale.getD row 0) waveSums hwave
    (fun rowOffset _ hrow k hk => by
      have hread : Result.getItem ((List.range K).map (input.getD · 0)) k = .ok (input.getD k 0) := by
        rw [Result.getItem_eq_ok, List.getElem?_map, List.getElem?_range hk]
        rfl
      rw [getItem_getD (hweight ▸ cell_lt hrow hk) 0, Result.ok_bind, hread]
      rfl)
    (fun row hrow total => by
      rw [getItem_getD (hscale ▸ hrow) 0]
      rfl)
  rw [hsum]
  refine congrArg Except.ok (List.map_congr_left fun row _ => congrArg (Prod.mk row) ?_)
  rw [Finset.sum_mul]
  refine sum_congr rfl fun k _ => ?_
  rw [w8Dequantised]
  ring

theorem w4a16GemvKernel_ok {weight : List UInt8} {scale smem waveSums : List R} (hK : K % 32 = 0)
    (hweight : weight.length = m * (K / 2)) (hscale : scale.length = m * (K / 32)) (hinput : input.length = K)
    (hsmem : smem.length = K + rowsPerBlock * (K / 32)) (hwave : waveSums.length = rowsPerBlock * wavesPerBlock)
    (blockIdx : Nat) :
    w4a16GemvKernel K m weight scale input smem waveSums blockIdx =
      .ok ((((List.range rowsPerBlock).map (blockIdx * rowsPerBlock + ·)).filter (· < m)).map fun row =>
        (row, ∑ k ∈ Finset.range K, w4Dequantised K weight scale row k * input.getD k 0)) := by
  rw [w4a16GemvKernel, loadShared_ok (d := 0) hinput hscale hsmem, Result.ok_bind]
  refine sumRows_ok hwave (fun rowOffset hoffset hrow k hk => ?_) fun row _ total => rfl
  have hread : Result.getItem ((List.range (K + rowsPerBlock * (K / 32))).map
      (sharedCell 0 K m scale input blockIdx)) k = .ok (input.getD k 0) := by
    rw [Result.getItem_eq_ok, List.getElem?_map, List.getElem?_range (by omega), Option.map_some, sharedCell,
      if_pos hk]
  rw [w4Entry_ok hK hk hoffset hrow hweight, Result.ok_bind]
  show (do return _ * (← Result.getItem _ k) : Result R) = _
  rw [hread]
  rfl

/-- Both kernels, on memory of exactly the size the matrix needs and shared memory of any contents:
nothing is read or written outside, every row is written once and with its sum. -/
theorem launch_ok (hinput : input.length = K) {waveSums : Nat → List R}
    (hwave : ∀ blockIdx, (waveSums blockIdx).length = rowsPerBlock * wavesPerBlock) :
    (∀ (weight : List Int8) (scale : List R) (smem : Nat → List R),
      weight.length = m * K → scale.length = m → (∀ blockIdx, (smem blockIdx).length * 2 = K * 2) →
      launchW8 K m weight scale input smem waveSums = .ok ((List.range m).map fun row =>
        (row, ∑ k ∈ Finset.range K, w8Dequantised K weight scale row k * input.getD k 0))) ∧
    (K % 32 = 0 → ∀ (weight : List UInt8) (scale : List R) (smem : Nat → List R),
      weight.length = m * (K / 2) → scale.length = m * (K / 32) →
      (∀ blockIdx, (smem blockIdx).length * 2 = sharedBytes K) →
      launchW4 K m weight scale input smem waveSums = .ok ((List.range m).map fun row =>
        (row, ∑ k ∈ Finset.range K, w4Dequantised K weight scale row k * input.getD k 0))) := by
  constructor
  · intro weight scale smem hweight hscale hsmem
    refine launch_rows fun blockIdx => ?_
    have hcells := hsmem blockIdx
    exact w8a16GemvKernel_ok hweight hscale hinput (by omega) (hwave blockIdx) blockIdx
  · intro hK weight scale smem hweight hscale hsmem
    refine launch_rows fun blockIdx => ?_
    have hcells := hsmem blockIdx
    rw [sharedBytes] at hcells
    exact w4a16GemvKernel_ok hK hweight hscale hinput (by omega) (hwave blockIdx) blockIdx

theorem launch_ok_ones :
    launchW8 32 1 (.replicate 32 1) [(1 : ℤ)] (.replicate 32 1) (fun _ => .replicate 32 0)
      (fun _ => .replicate 16 0) = .ok ((List.range 1).map fun row => (row, ∑ k ∈ Finset.range 32,
        w8Dequantised 32 (.replicate 32 1) [(1 : ℤ)] row k * (List.replicate 32 1).getD k 0)) ∧
    launchW4 32 1 (.replicate 16 17) [(1 : ℤ)] (.replicate 32 1) (fun _ => .replicate 36 0)
      (fun _ => .replicate 16 0) = .ok ((List.range 1).map fun row => (row, ∑ k ∈ Finset.range 32,
        w4Dequantised 32 (.replicate 16 17) [(1 : ℤ)] row k * (List.replicate 32 1).getD k 0)) := by
  have h := @launch_ok ℤ _ 1 32 (.replicate 32 1) rfl (fun _ => .replicate 16 0) fun _ => rfl
  exact ⟨h.1 _ _ _ rfl rfl fun _ => rfl, h.2 rfl _ _ _ rfl rfl fun _ => rfl⟩

end Launch

end Vllm.Gfx936
