import Vllm.Lib.Stripe
import Vllm.SlotMapping

namespace Vllm

open Stripe

namespace BlockTable

variable {t : BlockTable} {req p : Nat}

/-- A table of one rank: block ids are not negative, and blocks consist of whole stripes. -/
structure Striped (t : BlockTable) : Prop where
  cells : ∀ i j, 0 ≤ t.cpu i j
  blockSize : 0 < t.blockSize
  interleave : 0 < t.cpKvCacheInterleaveSize
  stripes : t.cpKvCacheInterleaveSize ∣ t.blockSize
  pcpRank : t.pcpRank < t.pcpWorldSize
  dcpRank : t.dcpRank < t.dcpWorldSize

def withRank (t : BlockTable) (pcpRank dcpRank : Nat) : BlockTable := { t with pcpRank, dcpRank }

def blockIndex (t : BlockTable) (p : Nat) : Nat := p / (t.blockSize * t.totalCpWorldSize)

def blockOffset (t : BlockTable) (p : Nat) : Nat :=
  p % (t.blockSize * t.totalCpWorldSize) / (t.totalCpWorldSize * t.cpKvCacheInterleaveSize) *
    t.cpKvCacheInterleaveSize + p % (t.blockSize * t.totalCpWorldSize) % t.cpKvCacheInterleaveSize

abbrev Keeps (t : BlockTable) (p : Nat) : Prop :=
  Local t.totalCpWorldSize t.cpKvCacheInterleaveSize t.totalCpRank p

theorem Striped.totalCpRank_lt (h : t.Striped) : t.totalCpRank < t.totalCpWorldSize := by
  unfold totalCpRank totalCpWorldSize
  have hd := h.dcpRank
  calc t.pcpRank * t.dcpWorldSize + t.dcpRank < t.pcpRank * t.dcpWorldSize + t.dcpWorldSize := by
        omega
    _ = (t.pcpRank + 1) * t.dcpWorldSize := by rw [Nat.add_mul, Nat.one_mul]
    _ ≤ t.pcpWorldSize * t.dcpWorldSize := Nat.mul_le_mul_right _ h.pcpRank

theorem Striped.keeps_iff (h : t.Striped) : t.Keeps p ↔
    p % (t.blockSize * t.totalCpWorldSize) / t.cpKvCacheInterleaveSize % t.totalCpWorldSize =
      t.totalCpRank := by
  obtain ⟨k, hk⟩ := h.stripes
  have hmod : p % (t.blockSize * t.totalCpWorldSize) / t.cpKvCacheInterleaveSize %
      t.totalCpWorldSize = p / t.cpKvCacheInterleaveSize % t.totalCpWorldSize := by
    rw [hk, Nat.mul_assoc, Nat.mod_mul_right_div_self, Nat.mul_comm k, Nat.mod_mul_right_mod]
  rw [hmod]
  rfl

theorem ravel_row (hp : t.blockIndex p < t.maxNumBlocksPerReq) :
    t.ravel (req * t.maxNumBlocksPerReq + t.blockIndex p) = t.cpu req (t.blockIndex p) := by
  have hpos : 0 < t.maxNumBlocksPerReq := Nat.lt_of_le_of_lt (Nat.zero_le _) hp
  rw [ravel, Nat.mul_comm, Nat.mul_add_div hpos, Nat.div_eq_of_lt hp, Nat.mul_add_mod,
    Nat.mod_eq_of_lt hp, Nat.add_zero]

theorem Striped.slot_eq (h : t.Striped) : t.slot req p =
    if t.Keeps p then t.ravel (req * t.maxNumBlocksPerReq + t.blockIndex p) * t.blockSize +
      t.blockOffset p
    else -1 := by
  have hrank := h.totalCpRank_lt
  unfold slot
  split
  · simp only [h.keeps_iff]
    rfl
  · have hone : t.totalCpWorldSize = 1 := by omega
    have hkeeps : t.Keeps p := by
      unfold Keeps Local
      rw [hone, Nat.mod_one]
      omega
    have hoffset : t.blockOffset p = p % t.blockSize := by
      unfold blockOffset
      rw [hone, Nat.mul_one, Nat.one_mul, Nat.mul_comm _ t.cpKvCacheInterleaveSize,
        Nat.div_add_mod]
    rw [if_pos hkeeps, hoffset, blockIndex, hone, Nat.mul_one]

theorem Striped.slot_ne_iff (h : t.Striped) : t.slot req p ≠ -1 ↔ t.Keeps p := by
  rw [h.slot_eq]
  split
  · rename_i hkeeps
    have hcell := Int.mul_nonneg (h.cells ((req * t.maxNumBlocksPerReq + t.blockIndex p) /
      t.maxNumBlocksPerReq) ((req * t.maxNumBlocksPerReq + t.blockIndex p) %
      t.maxNumBlocksPerReq)) (Int.natCast_nonneg t.blockSize)
    refine iff_of_true ?_ hkeeps
    unfold ravel
    omega
  · rename_i hkeeps
    exact iff_of_false (fun hne => hne rfl) hkeeps

theorem Striped.place (h : t.Striped) (hp : t.Keeps p) :
    t.blockIndex p = Nat.count t.Keeps p / t.blockSize ∧
      t.blockOffset p = Nat.count t.Keeps p % t.blockSize := by
  obtain ⟨k, hk⟩ := h.stripes
  have hk : t.blockSize = k * t.cpKvCacheInterleaveSize := by rw [hk, Nat.mul_comm]
  unfold blockIndex blockOffset
  rw [hk]
  exact div_mod_of_local h.interleave h.totalCpRank_lt hp

theorem Striped.blockOffset_lt (h : t.Striped) (hp : t.Keeps p) : t.blockOffset p < t.blockSize := by
  rw [(h.place hp).2]
  exact Nat.mod_lt _ h.blockSize

theorem Striped.injective (h : t.Striped) {q : Nat} (hp : t.Keeps p) (hq : t.Keeps q)
    (hindex : t.blockIndex p = t.blockIndex q) (hoffset : t.blockOffset p = t.blockOffset q) :
    p = q := by
  rw [(h.place hp).1, (h.place hq).1] at hindex
  rw [(h.place hp).2, (h.place hq).2] at hoffset
  refine Nat.count_injective hp hq ?_
  rw [← Nat.div_add_mod (Nat.count t.Keeps p) t.blockSize, hindex, hoffset, Nat.div_add_mod]

theorem Striped.existsUnique_rank (h : t.Striped) (req p : Nat) :
    ∃! r : Nat × Nat, (r.1 < t.pcpWorldSize ∧ r.2 < t.dcpWorldSize) ∧
      (t.withRank r.1 r.2).slot req p ≠ -1 := by
  have hd : 0 < t.dcpWorldSize := Nat.lt_of_le_of_lt (Nat.zero_le _) h.dcpRank
  have hW : 0 < t.totalCpWorldSize := Nat.lt_of_le_of_lt (Nat.zero_le _) h.totalCpRank_lt
  have hkeeps : ∀ r : Nat × Nat, r.1 < t.pcpWorldSize ∧ r.2 < t.dcpWorldSize →
      ((t.withRank r.1 r.2).slot req p ≠ -1 ↔
        p / t.cpKvCacheInterleaveSize % t.totalCpWorldSize = r.1 * t.dcpWorldSize + r.2) := by
    intro r hr
    have hstriped : (t.withRank r.1 r.2).Striped :=
      ⟨h.cells, h.blockSize, h.interleave, h.stripes, hr.1, hr.2⟩
    exact hstriped.slot_ne_iff
  generalize hrank : p / t.cpKvCacheInterleaveSize % t.totalCpWorldSize = rank at hkeeps
  have hlt : rank < t.pcpWorldSize * t.dcpWorldSize := by
    rw [← hrank]
    exact Nat.mod_lt _ hW
  have hr : rank / t.dcpWorldSize < t.pcpWorldSize ∧ rank % t.dcpWorldSize < t.dcpWorldSize :=
    ⟨(Nat.div_lt_iff_lt_mul hd).mpr hlt, Nat.mod_lt _ hd⟩
  refine ⟨(rank / t.dcpWorldSize, rank % t.dcpWorldSize), ⟨hr, (hkeeps _ hr).mpr ?_⟩, ?_⟩
  · rw [Nat.mul_comm, Nat.div_add_mod]
  · rintro ⟨a, b⟩ ⟨hab, hne⟩
    have heq : rank = a * t.dcpWorldSize + b := (hkeeps _ hab).mp hne
    rw [heq, Nat.mul_comm, Nat.mul_add_div hd, Nat.mul_add_mod, Nat.div_eq_of_lt hab.2,
      Nat.mod_eq_of_lt hab.2, Nat.add_zero]

end BlockTable

theorem getDcpLocalSeqLens_eq {D I r : Nat} (hI : 0 < I) (hr : r < D) (L : Nat) :
    getDcpLocalSeqLens [L] D (some r) I = [[(Nat.count (Local D I r) L : Int)]] := by
  have hsplit : L = L / I / D * I * D + L % (I * D) := by
    have hL := Nat.div_add_mod L (I * D)
    rw [← Nat.div_div_eq_div_mul] at hL
    calc L = I * D * (L / I / D) + L % (I * D) := hL.symm
      _ = L / I / D * I * D + L % (I * D) := by ring
  have hcount := count_local (r := r) hI hr L
  rw [← Nat.div_div_eq_div_mul] at hcount
  simp only [getDcpLocalSeqLens, List.map_cons, List.map_nil, hcount]
  congr 2
  have hbase : (L : Int) / I / D * I = ((L / I / D * I : Nat) : Int) := by push_cast; rfl
  have hrest : (L : Int) - ((L / I / D * I : Nat) : Int) * D = (L % (I * D) : Nat) := by
    have hsplit : (L : Int) = ((L / I / D * I : Nat) : Int) * D + (L % (I * D) : Nat) := by
      exact_mod_cast hsplit
    omega
  have hoffset : (r : Int) * I = ((r * I : Nat) : Int) := by push_cast; rfl
  rw [hbase, hrest, hoffset]
  generalize L % (I * D) = m
  generalize r * I = a
  generalize L / I / D * I = b
  omega

namespace SlotMappingsKernel

variable {k : SlotMappingsKernel} {t : BlockTable} {b req : Nat}

theorem forRange_store (start stop : Nat) (values mem : Nat → Int) (o : Nat) :
    forRange start stop tritonBlockSize (fun i => store i stop values) mem o =
      if start ≤ o ∧ o < stop then values o else mem o := by
  have hchunks : ∀ n, (List.range n).foldl (fun mem m =>
      store (start + m * tritonBlockSize) stop values mem) mem o =
        if start ≤ o ∧ o < start + n * tritonBlockSize ∧ o < stop then values o else mem o := by
    intro n
    induction n with
    | zero =>
      rw [if_neg (by omega)]
      rfl
    | succ n ih =>
      rw [List.range_succ, List.foldl_append]
      simp only [List.foldl_cons, List.foldl_nil]
      rw [store, ih, Nat.add_mul, Nat.one_mul]
      split_ifs <;> first | rfl | omega
  unfold forRange
  rw [hchunks]
  have hcover : stop ≤ start + (stop - start + tritonBlockSize - 1) / tritonBlockSize *
      tritonBlockSize := by
    unfold tritonBlockSize
    omega
  congr 1
  simp only [eq_iff_iff]
  omega

def Writes (k : SlotMappingsKernel) (b o : Nat) : Prop :=
  k.queryStartLoc b ≤ o ∧ o < if b = k.numReqs then k.maxNumTokens else k.queryStartLoc (b + 1)

instance (k : SlotMappingsKernel) (b o : Nat) : Decidable (k.Writes b o) :=
  inferInstanceAs (Decidable (_ ∧ _))

theorem program_apply (b : Nat) (mem : Nat → Int) (o : Nat) : k.program b mem o =
    if k.Writes b o then
      if b = k.numReqs then padId else k.slotId (k.idxMapping b) (k.pos o)
    else mem o := by
  unfold program Writes
  by_cases hb : b = k.numReqs
  · simp only [if_pos hb]
    exact forRange_store _ _ _ _ _
  · simp only [if_neg hb]
    rw [forRange_store]
    split
    · rename_i ho
      rw [if_pos ho.2]
    · rfl

theorem Writes.unique (hq : Monotone k.queryStartLoc) {b' o : Nat} (hb : b ≤ k.numReqs)
    (hb' : b' ≤ k.numReqs) (h : k.Writes b o) (h' : k.Writes b' o) : b = b' := by
  have hlt : ∀ x y, x < y → y ≤ k.numReqs → k.Writes x o → k.Writes y o → False := by
    intro x y hxy hy hx hy'
    have hne : x ≠ k.numReqs := by omega
    have hle := hq (show x + 1 ≤ y from hxy)
    have hx := hx.2
    have hy' := hy'.1
    rw [if_neg hne] at hx
    omega
  rcases Nat.lt_trichotomy b b' with hlt' | heq | hlt'
  · exact (hlt b b' hlt' hb' h h').elim
  · exact heq
  · exact (hlt b' b hlt' hb h' h).elim

theorem launch_apply (hq : Monotone k.queryStartLoc) {order : List Nat}
    (horder : order.Perm (List.range (k.numReqs + 1))) (mem : Nat → Int) {o : Nat}
    (hb : b ≤ k.numReqs) (ho : k.Writes b o) :
    k.launch order mem o =
      if b = k.numReqs then padId else k.slotId (k.idxMapping b) (k.pos o) := by
  have hle : ∀ x ∈ order, x ≤ k.numReqs := by
    intro x hx
    have := List.mem_range.mp (horder.mem_iff.mp hx)
    omega
  have hmem : b ∈ order := horder.mem_iff.mpr (List.mem_range.mpr (by omega))
  clear horder
  unfold launch
  induction order using List.reverseRecOn with
  | nil => cases hmem
  | append_singleton order x ih =>
    rw [List.foldl_append, List.foldl_cons, List.foldl_nil, program_apply]
    by_cases hx : k.Writes x o
    · rw [if_pos hx, ho.unique hq hb (hle x (by simp)) hx]
    · rw [if_neg hx]
      have hne : b ≠ x := by
        rintro rfl
        exact hx ho
      refine ih (fun y hy => hle y (List.mem_append_left _ hy)) ?_
      exact (List.mem_append.mp hmem).resolve_right fun h => hne (List.mem_singleton.mp h)

structure Reads (k : SlotMappingsKernel) (b : Nat) (t : BlockTable) (req : Nat) : Prop where
  blockSize : k.blockSize = t.blockSize
  cpSize : k.cpSize = t.totalCpWorldSize
  cpRank : k.cpRank = t.totalCpRank
  cpInterleave : k.cpInterleave = t.cpKvCacheInterleaveSize
  row : ∀ j < t.maxNumBlocksPerReq,
    k.blockTable (k.idxMapping b * k.blockTableStride + j) = t.cpu req j

theorem Reads.slotId_eq (h : k.Reads b t req) (ht : t.Striped) {p : Nat}
    (hp : t.blockIndex p < t.maxNumBlocksPerReq) :
    k.slotId (k.idxMapping b) p = t.slot req p := by
  have hrank := ht.totalCpRank_lt
  unfold slotId BlockTable.slot
  simp only [h.blockSize, h.cpSize, h.cpRank, h.cpInterleave]
  have hcell : k.blockTable (k.idxMapping b * k.blockTableStride +
      p / (t.blockSize * t.totalCpWorldSize)) =
        t.ravel (req * t.maxNumBlocksPerReq + p / (t.blockSize * t.totalCpWorldSize)) :=
    (h.row _ hp).trans (BlockTable.ravel_row hp).symm
  rw [hcell]
  by_cases hone : t.totalCpWorldSize = 1
  · simp only [hone, if_true, Nat.lt_irrefl, if_false, Nat.mul_one]
  · have hlt : 1 < t.totalCpWorldSize := by omega
    rw [if_neg hone, if_pos hlt, Nat.mul_comm t.totalCpWorldSize t.cpKvCacheInterleaveSize]
    rfl

end SlotMappingsKernel

/-- Context parallel placement of the positions of one request, as one rank sees it. -/
structure BlockTable.Places (t : BlockTable) (req : Nat) : Prop where
  oneRank : ∀ p, ∃! r : Nat × Nat, (r.1 < t.pcpWorldSize ∧ r.2 < t.dcpWorldSize) ∧
    (t.withRank r.1 r.2).slot req p ≠ -1
  slot : ∀ p, t.slot req p ≠ -1 → t.blockIndex p < t.maxNumBlocksPerReq →
    t.slot req p = t.cpu req (t.blockIndex p) * t.blockSize + t.blockOffset p
  injective : ∀ p q, t.slot req p ≠ -1 → t.slot req q ≠ -1 →
    t.blockIndex p = t.blockIndex q → t.blockOffset p = t.blockOffset q → p = q
  slotInjective : (∀ i < t.maxNumBlocksPerReq, ∀ j < t.maxNumBlocksPerReq,
      t.cpu req i = t.cpu req j → i = j) →
    ∀ p q, t.slot req p ≠ -1 → t.blockIndex p < t.maxNumBlocksPerReq →
      t.blockIndex q < t.maxNumBlocksPerReq → t.slot req p = t.slot req q → p = q
  offset_lt : ∀ p, t.slot req p ≠ -1 → t.blockOffset p < t.blockSize
  nth : ∀ p, t.slot req p ≠ -1 →
    t.blockIndex p = Nat.count (fun q => t.slot req q ≠ -1) p / t.blockSize ∧
      t.blockOffset p = Nat.count (fun q => t.slot req q ≠ -1) p % t.blockSize
  length : t.pcpWorldSize = 1 → ∀ L,
    getDcpLocalSeqLens [L] t.dcpWorldSize (some t.dcpRank) t.cpKvCacheInterleaveSize =
      [[(Nat.count (fun q => t.slot req q ≠ -1) L : Int)]]
  kernel : ∀ (k : SlotMappingsKernel) (b o : Nat) (order : List Nat) (mem : Nat → Int)
    (reqIndices positions : List Nat), k.Reads b t req → Monotone k.queryStartLoc →
    order.Perm (List.range (k.numReqs + 1)) → b < k.numReqs →
    k.queryStartLoc b ≤ o → o < k.queryStartLoc (b + 1) →
    reqIndices[o]? = some req → positions[o]? = some (k.pos o) →
    t.blockIndex (k.pos o) < t.maxNumBlocksPerReq →
    (t.computeSlotMapping reqIndices positions)[o]? = some (k.launch order mem o)

theorem eq_of_mul_add_eq {x y : Int} {n a b : Nat} (ha : a < n) (hb : b < n)
    (h : x * n + a = y * n + b) : x = y ∧ a = b := by
  have hn : (0 : Int) < n := by omega
  have hx : (x * n + a) / n = x := by
    rw [Int.mul_comm, Int.mul_add_ediv_left _ _ (Int.ne_of_gt hn),
      Int.ediv_eq_zero_of_lt (Int.natCast_nonneg a) (by omega), Int.add_zero]
  have hy : (y * n + b) / n = y := by
    rw [Int.mul_comm, Int.mul_add_ediv_left _ _ (Int.ne_of_gt hn),
      Int.ediv_eq_zero_of_lt (Int.natCast_nonneg b) (by omega), Int.add_zero]
  have hxy : x = y := by rw [← hx, ← hy, h]
  subst hxy
  exact ⟨rfl, by omega⟩

theorem BlockTable.Striped.places {t : BlockTable} (h : t.Striped) (req : Nat) : t.Places req := by
  have hkeeps : ∀ p, t.slot req p ≠ -1 ↔ t.Keeps p := fun p => h.slot_ne_iff
  have hcount : ∀ n, Nat.count (fun q => t.slot req q ≠ -1) n = Nat.count t.Keeps n := by
    intro n
    simp only [hkeeps]
  constructor
  case oneRank => exact h.existsUnique_rank req
  case slot =>
    intro p hp hindex
    rw [h.slot_eq, if_pos ((hkeeps p).mp hp), BlockTable.ravel_row hindex]
  case injective =>
    intro p q hp hq
    exact h.injective ((hkeeps p).mp hp) ((hkeeps q).mp hq)
  case slotInjective =>
    intro hrow p q hp hip hiq heq
    have hq : t.slot req q ≠ -1 := heq ▸ hp
    have hpk := (hkeeps p).mp hp
    have hqk := (hkeeps q).mp hq
    rw [h.slot_eq, h.slot_eq, if_pos hpk, if_pos hqk, BlockTable.ravel_row hip,
      BlockTable.ravel_row hiq] at heq
    obtain ⟨hblock, hoffset⟩ := eq_of_mul_add_eq (h.blockOffset_lt hpk) (h.blockOffset_lt hqk) heq
    exact h.injective hpk hqk (hrow _ hip _ hiq hblock) hoffset
  case offset_lt => exact fun p hp => h.blockOffset_lt ((hkeeps p).mp hp)
  case nth =>
    intro p hp
    rw [hcount]
    exact h.place ((hkeeps p).mp hp)
  case length =>
    intro hpcp L
    have hworld : t.totalCpWorldSize = t.dcpWorldSize := by
      rw [BlockTable.totalCpWorldSize, hpcp, Nat.one_mul]
    have hrank : t.totalCpRank = t.dcpRank := by
      have hlt := h.pcpRank
      have hzero : t.pcpRank = 0 := by omega
      rw [BlockTable.totalCpRank, hzero, Nat.zero_mul, Nat.zero_add]
    rw [hcount, getDcpLocalSeqLens_eq h.interleave h.dcpRank]
    unfold BlockTable.Keeps
    rw [hworld, hrank]
  case kernel =>
    intro k b o order mem reqIndices positions hreads hq horder hb hlo hhi hreq hpos hindex
    have hwrites : k.Writes b o := ⟨hlo, by rw [if_neg (Nat.ne_of_lt hb)]; exact hhi⟩
    rw [SlotMappingsKernel.launch_apply hq horder mem (Nat.le_of_lt hb) hwrites,
      if_neg (Nat.ne_of_lt hb), hreads.slotId_eq h hindex, BlockTable.computeSlotMapping,
      List.getElem?_zipWith, hreq, hpos]

def stripedTable : BlockTable where
  blockSize := 4
  blocksPerKvBlock := 1
  useHybridBlocks := false
  maxNumBlocksPerReq := 3
  cpKvCacheInterleaveSize := 2
  pcpWorldSize := 1
  pcpRank := 0
  dcpWorldSize := 2
  dcpRank := 1
  cpu := fun i j => 3 * i + j
  gpu := fun _ _ => 0
  numBlocksPerRow := fun _ => 3
  dirty := true

theorem stripedTable_places : stripedTable.Striped ∧ stripedTable.Places 1 := by
  have h : stripedTable.Striped := by
    refine ⟨fun i j => ?_, by decide, by decide, by decide, by decide, by decide⟩
    show (0 : Int) ≤ 3 * i + j
    omega
  exact ⟨h, h.places 1⟩

end Vllm
